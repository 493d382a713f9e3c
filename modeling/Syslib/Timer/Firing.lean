import Syslib.Timer.Cascade

namespace Syslib.Timer

open IntrusiveLists Runs

/-- A periodic timer of this delay goes back to the list that the tick runs. -/
def TimerNode.Returns (tick : Nat) (node : TimerNode) : Prop :=
  node.runOnce = 0 ∧ node.delayTick = tick % 256

instance TimerNode.Returns.decidable (tick : Nat) (node : TimerNode) : Decidable (node.Returns tick) :=
  inferInstanceAs (Decidable (_ ∧ _))

/-- Every timer in a list is allocated, no timer is in two lists or an orphan, and the delays are positive. -/
structure TimerWheel.Linked (wheel : TimerWheel) : Prop where
  apart : Apart wheel.lists
  alive : ∀ {slot tn}, tn ∈ wheel.lists slot → ∃ node, wheel.nodes tn = some node
  regular : ∀ {tn node}, wheel.nodes tn = some node → 0 < node.delayTick ∧ node.delayTick < 2 ^ 32
  word : wheel.currentTick < 2 ^ 64
  whole : wheel.orphans = []

/-- The list that the current tick runs. -/
def TimerWheel.turn (wheel : TimerWheel) : List Nat := wheel.lists (.tvSet0 (wheel.currentTick % 256))

/-- This is the loop of `on_tick` over the list of the tick; the fuel bounds its rounds. -/
def firingLoop (fuel : Nat) (wheel : TimerWheel) : Option (TimerWheel × List Invocation) :=
  walk (fun state => state.1.lists (.tvSet0 (wheel.currentTick % 256))) runTimer fuel
    wheel.turn.head? (wheel, [])

/-- The loop ends, and it has invoked each timer that was in its list at first exactly once. -/
def TimerWheel.FiresOnce (wheel : TimerWheel) : Prop :=
  ∃ fuel final, firingLoop fuel wheel = some final ∧
    ∀ tn ∈ wheel.turn, (final.2.map Invocation.handle).count tn = 1

/-- The tick goes through the loop after its cascades. -/
theorem onTick_eq (wheel : TimerWheel) : onTick wheel = (casades wheel).bind fun wheel =>
    (firingLoop (wheel.turn.length + 1) wheel).map fun final =>
      ({ final.1 with currentTick := (final.1.currentTick + 1) % 2 ^ 64 }, final.2) := by
  rw [onTick]
  cases casades wheel with
  | none => rfl
  | some wheel =>
      simp only [Option.bind_eq_bind, Option.bind_some, firingLoop, TimerWheel.turn]
      cases walk _ runTimer _ _ (wheel, []) with
      | none => rfl
      | some final => rfl

/-- Only the delay that is the index of the running list selects this list. -/
theorem timerSlot_turn {tick delay : Nat} (word : tick < 2 ^ 64) (short : delay < 2 ^ 32) :
    timerSlot ((tick + delay) % 2 ^ 64) tick = some (.tvSet0 (tick % 256)) ↔ delay = tick % 256 := by
  have diff : diffTicks ((tick + delay) % 2 ^ 64) tick = delay := by
    unfold diffTicks
    omega
  by_cases near : delay < 256
  · simp only [timerSlot, diff, near, if_true, Option.some.injEq, Slot.tvSet0.injEq]
    omega
  · rw [timerSlot_wraps word (Nat.le_of_not_lt near) short]
    simp only [Option.some.injEq, reduceCtorEq, false_iff]
    omega

/-- A positive difference never selects the list that the cascade of its level empties. -/
theorem tvSetSlot_leaves (diffTick tick level bound : Nat) :
    tvSetSlot diffTick tick bound ≠ some (.tvSet level (tvSetIdx level tick)) := by
  induction bound with
  | zero => exact fun same => (nomatch same)
  | succ bound ih =>
      rw [tvSetSlot]
      split_ifs with positive
      · intro same
        obtain ⟨rfl, index⟩ := Slot.tvSet.inj (Option.some.inj same)
        unfold tvSetIdx at positive index
        omega
      · exact ih

namespace TimerWheel.Linked

variable {wheel : TimerWheel}

/-- A timer leaves its list, and its memory gets new contents or is freed. -/
theorem unlinked (linked : wheel.Linked) (tn : Nat) {content : Option TimerNode}
    (regular : ∀ node ∈ content, 0 < node.delayTick ∧ node.delayTick < 2 ^ 32) :
    ((wheel.lstRemoveNode tn).write tn content).Linked := by
  constructor
  · exact linked.apart.removeNode tn
  · intro slot other inside
    obtain ⟨different, before⟩ := linked.apart.mem_removeNode.mp inside
    obtain ⟨record, stored⟩ := linked.alive before
    exact ⟨record, by simpa [write, lstRemoveNode, different] using stored⟩
  · intro other record stored
    by_cases same : other = tn
    · exact regular record (by simpa [write, same] using stored)
    · exact linked.regular (by simpa [write, lstRemoveNode, same] using stored)
  · exact linked.word
  · exact linked.whole

/-- A timer leaves its list and enters another one with new contents. -/
theorem moved (linked : wheel.Linked) {tn : Nat} {node : TimerNode}
    (regular : 0 < node.delayTick ∧ node.delayTick < 2 ^ 32) (place : Option Slot) :
    (((wheel.lstRemoveNode tn).write tn (some node)).link tn place).Linked := by
  have removed : ((wheel.lstRemoveNode tn).write tn (some node)).Linked := by
    apply linked.unlinked tn
    rintro record ⟨⟩
    exact regular
  cases place with
  | none => exact removed
  | some slot =>
      refine { removed with apart := ?_, alive := ?_ }
      · apply removed.apart.pushBack slot
        intro place inside
        exact (linked.apart.mem_removeNode.mp inside).1 rfl
      · intro place other inside
        rcases mem_pushBack.mp inside with kept | ⟨rfl, rfl⟩
        · exact removed.alive kept
        · exact ⟨node, by simp [link, write]⟩

theorem deleted (linked : wheel.Linked) (tn : Nat) : (delTimerNode wheel tn).Linked :=
  linked.unlinked tn (by simp)

/-- A round of a cascade takes the first timer of its list to another one. -/
theorem casadeRound (linked : wheel.Linked) {level tn : Nat} {rest : List Nat}
    (here : wheel.lists (.tvSet level (tvSetIdx level wheel.currentTick)) = tn :: rest) :
    ∃ next, addTimerNode (wheel.lstRemoveNode tn) tn = some next ∧ next.Linked ∧
      next.currentTick = wheel.currentTick ∧
      next.lists (.tvSet level (tvSetIdx level wheel.currentTick)) = rest := by
  obtain ⟨node, stored⟩ := linked.alive (here ▸ List.mem_cons_self)
  let place := timerSlot node.runTick wheel.currentTick
  have taken : addTimerNode (wheel.lstRemoveNode tn) tn = some ((wheel.lstRemoveNode tn).link tn place) := by
    have found : (wheel.lstRemoveNode tn).nodes tn = some node := stored
    rw [addTimerNode, found]
    rfl
  have same : (wheel.lstRemoveNode tn).write tn (some node) = wheel.lstRemoveNode tn := by
    rw [write, ← stored]
    exact congrArg (TimerWheel.mk _ _ · _) (Function.update_eq_self _ _)
  have moved := @moved _ linked tn node (linked.regular stored) place
  rw [same] at moved
  refine ⟨_, taken, moved, by cases place <;> rfl, ?_⟩
  have removed : removeNode wheel.lists tn (.tvSet level (tvSetIdx level wheel.currentTick)) = rest :=
    removeNode_head here
  cases selected : place with
  | none => exact removed
  | some slot =>
      refine (pushBack_elsewhere tn ?_).trans removed
      rintro rfl
      change timerSlot node.runTick wheel.currentTick = _ at selected
      rw [timerSlot] at selected
      split_ifs at selected
      · cases selected
      · exact tvSetSlot_leaves _ _ _ _ selected

theorem casadeList (linked : wheel.Linked) (level : Nat) : ∃ next,
    Timer.casadeList level wheel = some next ∧ next.Linked ∧ next.currentTick = wheel.currentTick := by
  let slot := Slot.tvSet level (tvSetIdx level wheel.currentTick)
  have unlinks : ∀ (tn : Nat) (rest : List Nat) (state : TimerWheel),
      state.Linked ∧ state.currentTick = wheel.currentTick ∧ state.lists slot = tn :: rest →
      ∃ next, addTimerNode (state.lstRemoveNode tn) tn = some next ∧ next.Linked ∧
        next.currentTick = wheel.currentTick ∧ next.lists slot = rest := by
    rintro tn rest state ⟨kept, tick, here⟩
    obtain ⟨next, taken, linked, same, left⟩ := @casadeRound _ kept level tn rest (tick.symm ▸ here)
    rw [tick] at left
    exact ⟨next, taken, linked, same.trans tick, left⟩
  obtain ⟨next, ran, kept, tick, -⟩ := @walk_drains _ _ _ (fun wheel : TimerWheel => wheel.lists slot)
    (fun curNode wheel => addTimerNode (wheel.lstRemoveNode curNode) curNode)
    (fun rest state => state.Linked ∧ state.currentTick = wheel.currentTick ∧ state.lists slot = rest)
    (fun _ _ held => held.2.2) unlinks _ _ wheel ⟨linked, rfl, rfl⟩ (Nat.le_succ _)
  exact ⟨next, ran, kept, tick⟩

theorem foldlM (linked : wheel.Linked) (levels : List Nat) : ∃ next,
    levels.foldlM (fun wheel level => Timer.casadeList level wheel) wheel = some next ∧ next.Linked ∧
      next.currentTick = wheel.currentTick := by
  induction levels generalizing wheel with
  | nil => exact ⟨wheel, rfl, linked, rfl⟩
  | cons level rest ih =>
      obtain ⟨middle, first, kept, tick⟩ := linked.casadeList level
      obtain ⟨next, later, held, same⟩ := ih kept
      exact ⟨next, by rw [List.foldlM_cons, first]; exact later, held, same.trans tick⟩

/-- The cascades of a tick end. -/
theorem casades_ends (linked : wheel.Linked) :
    ∃ next, casades wheel = some next ∧ next.Linked ∧ next.currentTick = wheel.currentTick := by
  rw [casades_eq]
  exact linked.foldlM _

theorem casades (linked : wheel.Linked) {next : TimerWheel} (ran : casades wheel = some next) :
    next.Linked ∧ next.currentTick = wheel.currentTick := by
  obtain ⟨result, ends, kept⟩ := linked.casades_ends
  obtain rfl := Option.some.inj (ends.symm.trans ran)
  exact kept

end TimerWheel.Linked

/-- No cascade is due at a tick whose list is not the first one. -/
theorem casades_between {wheel : TimerWheel} (between : wheel.currentTick % 256 ≠ 0) :
    casades wheel = some wheel := by
  have none_due : dueLevels wheel.currentTick = [] := by
    rw [List.eq_nil_iff_forall_not_mem]
    intro level member
    obtain ⟨below, due⟩ := mem_dueLevels.mp member
    have whole := (levelDue_iff.mp due).1
    obtain ⟨zero, one, two, three, -⟩ := tvSetSpan_values
    interval_cases level <;> simp only [zero, one, two, three] at whole <;> omega
  rw [casades_eq, none_due]
  rfl

/-- The timer of this handle goes back to the running list. -/
def TimerWheel.Again (wheel : TimerWheel) (tn : Nat) : Prop :=
  ∃ node ∈ wheel.nodes tn, node.Returns wheel.currentTick

instance TimerWheel.Again.decidable (wheel : TimerWheel) : DecidablePred wheel.Again :=
  fun _ => inferInstanceAs (Decidable (∃ node ∈ _, _))

/-- A round of the loop drops a run-once timer, and it moves a periodic one to the list of its delay. -/
structure Turned (wheel : TimerWheel) (tn : Nat) (node : TimerNode) (rest : List Nat)
    (next : TimerWheel) : Prop where
  tick : next.currentTick = wheel.currentTick
  linked : next.Linked
  turn : next.turn = rotated wheel.Again tn rest
  others : ∀ other, other ≠ tn → next.nodes other = wheel.nodes other
  dropped : node.runOnce ≠ 0 → next.nodes tn = none
  reloaded : node.runOnce = 0 → ∃ later, next.nodes tn = some later ∧
    later.runOnce = node.runOnce ∧ later.delayTick = node.delayTick

theorem runTimer_turned {wheel : TimerWheel} (linked : wheel.Linked) {tn : Nat} {rest : List Nat}
    (here : wheel.turn = tn :: rest) {node : TimerNode} (stored : wheel.nodes tn = some node)
    (invoked : List Invocation) : ∃ next,
      runTimer tn (wheel, invoked) = some (next, invoked ++ [node.invocation tn]) ∧
        Turned wheel tn node rest next := by
  have again : wheel.Again tn ↔ node.Returns wheel.currentTick := by
    simp [TimerWheel.Again, stored]
  by_cases single : node.runOnce ≠ 0
  · have leaves : ¬ wheel.Again tn := fun back => single (again.mp back).1
    refine ⟨delTimerNode wheel tn, ?_, rfl, linked.deleted tn, ?_, ?_, ?_, fun periodic => absurd periodic single⟩
    · simp [runTimer, stored, single, TimerNode.invocation]
    · rw [rotated, if_neg leaves]
      exact removeNode_head here
    · intro other different
      exact Function.update_of_ne different _ _
    · intro _
      exact Function.update_self _ _ _
  · have periodic : node.runOnce = 0 := not_not.mp single
    have delays := linked.regular stored
    let reloaded : TimerNode := { node with
      runTick := (wheel.currentTick + node.delayTick) % 2 ^ 64 }
    have regular : 0 < reloaded.delayTick ∧ reloaded.delayTick < 2 ^ 32 := delays
    have selects := timerSlot_turn linked.word delays.2
    have returns : wheel.Again tn ↔
        timerSlot reloaded.runTick wheel.currentTick = some (.tvSet0 (wheel.currentTick % 256)) := by
      rw [again]
      exact ⟨fun back => selects.mpr back.2, fun selected => ⟨periodic, selects.mp selected⟩⟩
    have moved := @TimerWheel.Linked.moved _ linked tn reloaded regular
      (timerSlot reloaded.runTick wheel.currentTick)
    have tick : (((wheel.lstRemoveNode tn).write tn (some reloaded)).link tn
        (timerSlot reloaded.runTick wheel.currentTick)).currentTick = wheel.currentTick := by
      cases timerSlot reloaded.runTick wheel.currentTick <;> rfl
    have nodes : (((wheel.lstRemoveNode tn).write tn (some reloaded)).link tn
        (timerSlot reloaded.runTick wheel.currentTick)).nodes =
          Function.update wheel.nodes tn (some reloaded) := by
      cases timerSlot reloaded.runTick wheel.currentTick <;> rfl
    refine ⟨((wheel.lstRemoveNode tn).write tn (some reloaded)).link tn
      (timerSlot reloaded.runTick wheel.currentTick), ?_, tick, moved, ?_, ?_,
      fun once => absurd once single, ?_⟩
    · simp only [runTimer, stored, Option.bind_eq_bind, Option.bind_some, if_neg single, addTimerNode,
        TimerWheel.write, Function.update_self, TimerWheel.lstRemoveNode]
      rfl
    · have removed : removeNode wheel.lists tn (.tvSet0 (wheel.currentTick % 256)) = rest :=
        removeNode_head here
      rw [TimerWheel.turn, tick]
      by_cases back : wheel.Again tn
      · rw [rotated, if_pos back, returns.mp back]
        change pushBack (removeNode wheel.lists tn) _ tn _ = _
        rw [pushBack, Function.update_self, removed]
      · rw [rotated, if_neg back]
        cases selected : timerSlot reloaded.runTick wheel.currentTick with
        | none => exact removed
        | some slot =>
            have elsewhere : Slot.tvSet0 (wheel.currentTick % 256) ≠ slot := by
              rintro rfl
              exact back (returns.mpr selected)
            exact (pushBack_elsewhere tn elsewhere).trans removed
    · intro other different
      rw [nodes, Function.update_of_ne different]
    · intro _
      exact ⟨reloaded, by rw [nodes, Function.update_self], rfl, rfl⟩

/-- The loop has visited some timers, and the others are still the timers they were. -/
structure Fired (origin : TimerWheel) (visited todo : List Nat) (state : TimerWheel × List Invocation) :
    Prop where
  tick : state.1.currentTick = origin.currentTick
  here : state.1.lists (.tvSet0 (origin.currentTick % 256)) = todo
  linked : state.1.Linked
  records : ∀ tn ∈ todo, ∃ node later, origin.nodes tn = some node ∧ state.1.nodes tn = some later ∧
    later.runOnce = node.runOnce ∧ later.delayTick = node.delayTick
  log : state.2.map Invocation.handle = visited

theorem Fired.step {origin : TimerWheel} {visited rest : List Nat} {tn : Nat}
    {state : TimerWheel × List Invocation} (fired : Fired origin visited (tn :: rest) state) :
    ∃ next, runTimer tn state = some next ∧
      Fired origin (visited ++ [tn]) (rotated origin.Again tn rest) next := by
  obtain ⟨wheel, invoked⟩ := state
  obtain ⟨tick, here, linked, records, log⟩ := fired
  simp only at tick here linked records log
  rw [← tick] at here
  obtain ⟨node, later, known, stored, once, delay⟩ := records tn List.mem_cons_self
  have same : rotated origin.Again tn rest = rotated wheel.Again tn rest := by
    have again : origin.Again tn ↔ wheel.Again tn := by
      simp [TimerWheel.Again, known, stored, TimerNode.Returns, once, delay, tick]
    simp only [rotated, again]
  obtain ⟨next, ran, turned⟩ := runTimer_turned linked here stored invoked
  refine ⟨_, ran, turned.tick.trans tick, ?_, turned.linked, ?_, ?_⟩
  · rw [same, ← turned.turn, TimerWheel.turn, turned.tick, tick]
  · intro other inside
    by_cases equal : other = tn
    · subst equal
      have back : origin.Again other := by
        have fresh : other ∉ rest := (List.nodup_cons.mp (here ▸ linked.apart.nodup _)).1
        by_contra leaves
        rw [rotated, if_neg leaves] at inside
        exact fresh inside
      obtain ⟨found, held, periodic, -⟩ := back
      obtain rfl : node = found := Option.some.inj (known.symm.trans held)
      obtain ⟨last, kept, sameOnce, sameDelay⟩ := turned.reloaded (once.trans periodic)
      exact ⟨node, last, known, kept, sameOnce.trans once, sameDelay.trans delay⟩
    · have before : other ∈ tn :: rest := by
        unfold rotated at inside
        split_ifs at inside
        · rcases List.mem_append.mp inside with old | new
          · exact List.mem_cons_of_mem _ old
          · exact absurd (List.mem_singleton.mp new) equal
        · exact List.mem_cons_of_mem _ inside
      obtain ⟨first, last, found, held, fields⟩ := records other before
      exact ⟨first, last, found, (turned.others other equal).trans held, fields⟩
  · simp [log, TimerNode.invocation]

/-- The loop visits the timers that the rotation of its list visits. -/
theorem firingLoop_visits {wheel : TimerWheel} (linked : wheel.Linked) (fuel : Nat) :
    (visits wheel.Again fuel wheel.turn = none → firingLoop fuel wheel = none) ∧
      ∀ visited, visits wheel.Again fuel wheel.turn = some visited → ∃ final,
        firingLoop fuel wheel = some final ∧ final.1.Linked ∧
          final.1.currentTick = wheel.currentTick ∧ final.2.map Invocation.handle = visited := by
  have start : Fired wheel [] wheel.turn (wheel, []) := by
    refine ⟨rfl, rfl, linked, ?_, rfl⟩
    intro tn inside
    obtain ⟨node, stored⟩ := linked.alive inside
    exact ⟨node, node, stored, stored, rfl, rfl⟩
  obtain ⟨stuck, ends⟩ := @walk_visits _ _ wheel.Again _ _
    (fun state => state.1.lists (.tvSet0 (wheel.currentTick % 256))) runTimer (Fired wheel)
    (fun _ _ _ fired => fired.here) (fun _ _ _ _ fired => fired.step) fuel [] _ _ start
  refine ⟨stuck, ?_⟩
  intro visited ran
  obtain ⟨final, left, walked, fired⟩ := ends visited ran
  exact ⟨final, walked, fired.linked, fired.tick, fired.log⟩

/-- A loop that ends at all ends within the rounds that `onTick` allows it. -/
theorem firingLoop_enough {wheel : TimerWheel} (linked : wheel.Linked) {fuel : Nat}
    (ends : (firingLoop fuel wheel).isSome) : (firingLoop (wheel.turn.length + 1) wheel).isSome := by
  have nodup : wheel.turn.Nodup := linked.apart.nodup _
  cases ran : visits wheel.Again fuel wheel.turn with
  | none =>
      rw [(firingLoop_visits linked fuel).1 ran] at ends
      cases ends
  | some visited =>
      have enough := visits_enough nodup ran
      obtain ⟨final, walked, -⟩ := (firingLoop_visits linked _).2 visited enough
      rw [walked]
      rfl

/-- The loop fires each timer once exactly when only the last one may go back to its list. -/
theorem TimerWheel.Linked.firesOnce_iff {wheel : TimerWheel} (linked : wheel.Linked) :
    wheel.FiresOnce ↔ ∀ tn ∈ wheel.turn.dropLast, ¬ wheel.Again tn := by
  have nodup : wheel.turn.Nodup := linked.apart.nodup _
  rw [← visits_once_iff nodup]
  constructor
  · rintro ⟨fuel, final, ran, once⟩
    cases rounds : visits wheel.Again fuel wheel.turn with
    | none =>
        rw [(firingLoop_visits linked fuel).1 rounds] at ran
        cases ran
    | some visited =>
        obtain ⟨last, walked, -, -, log⟩ := (firingLoop_visits linked fuel).2 visited rounds
        obtain rfl := Option.some.inj (ran.symm.trans walked)
        exact ⟨fuel, visited, rounds, log ▸ once⟩
  · rintro ⟨fuel, visited, rounds, once⟩
    obtain ⟨final, walked, -, -, log⟩ := (firingLoop_visits linked fuel).2 visited rounds
    exact ⟨fuel, final, walked, log ▸ once⟩

theorem onTick_linked {wheel next : TimerWheel} {invoked : List Invocation} (linked : wheel.Linked)
    (ran : onTick wheel = some (next, invoked)) : next.Linked := by
  rw [onTick_eq] at ran
  obtain ⟨cascaded, first, later⟩ := Option.bind_eq_some_iff.mp ran
  obtain ⟨final, looped, equal⟩ := Option.map_eq_some_iff.mp later
  obtain ⟨rfl, -⟩ := Prod.mk.inj equal
  obtain ⟨kept, -⟩ := linked.casades first
  cases rounds : visits cascaded.Again (cascaded.turn.length + 1) cascaded.turn with
  | none =>
      rw [(firingLoop_visits kept _).1 rounds] at looped
      cases looped
  | some visited =>
      obtain ⟨last, walked, held, -⟩ := (firingLoop_visits kept _).2 visited rounds
      obtain rfl := Option.some.inj (looped.symm.trans walked)
      exact { held with word := Nat.mod_lt _ (by decide) }

/-- A named timer enters the list that its delay selects. -/
theorem addTimer_eq (wheel : TimerWheel) {delayTick callbackFunc : Nat} (runOnce : Int) (param answer : Nat)
    (named : callbackFunc ≠ 0) (real : answer ≠ 0) : addTimer wheel delayTick callbackFunc runOnce param answer =
      some ((wheel.write answer (some (wheel.added delayTick callbackFunc runOnce param))).link answer
        (timerSlot (wheel.added delayTick callbackFunc runOnce param).runTick wheel.currentTick), answer) := by
  rw [addTimer, if_neg (by simp [named, real])]
  simp only [addTimerNode, TimerWheel.write, Function.update_self, TimerWheel.added]
  rfl

theorem TimerWheel.Linked.added {wheel : TimerWheel} (linked : wheel.Linked) {answer : Nat}
    (fresh : wheel.nodes answer = none) {node : TimerNode}
    (regular : 0 < node.delayTick ∧ node.delayTick < 2 ^ 32) (place : Option Slot) :
    ((wheel.write answer (some node)).link answer place).Linked := by
  have unlinked : removeNode wheel.lists answer = wheel.lists := by
    apply removeNode_unlinked
    intro slot inside
    obtain ⟨record, stored⟩ := linked.alive inside
    rw [fresh] at stored
    cases stored
  have moved := @TimerWheel.Linked.moved _ linked answer node regular place
  rwa [TimerWheel.lstRemoveNode, unlinked] at moved

theorem addTimer_linked {wheel next : TimerWheel} {delayTick callbackFunc param answer handle : Nat}
    {runOnce : Int} (linked : wheel.Linked) (positive : 0 < delayTick) (short : delayTick < 2 ^ 32)
    (fresh : callbackFunc ≠ 0 → wheel.nodes answer = none)
    (added : addTimer wheel delayTick callbackFunc runOnce param answer = some (next, handle)) :
    next.Linked := by
  by_cases failed : callbackFunc = 0 ∨ answer = 0
  · rw [addTimer, if_pos failed] at added
    obtain ⟨rfl, -⟩ := Prod.mk.inj (Option.some.inj added)
    exact linked
  · obtain ⟨named, real⟩ := not_or.mp failed
    rw [addTimer_eq wheel runOnce param answer named real] at added
    obtain ⟨rfl, -⟩ := Prod.mk.inj (Option.some.inj added)
    exact linked.added (fresh named) ⟨positive, short⟩ _

/-- The run adds timers with a positive `unsigned int` delay at fresh addresses, and it ticks. -/
def Call.Plain : Call → Trace → Prop
  | .addTimer delayTick callbackFunc _ _ answer, trace => 0 < delayTick ∧ delayTick < 2 ^ 32 ∧
      (callbackFunc ≠ 0 → trace.wheel.nodes answer = none)
  | .onTick, _ => True
  | .initTimer _, _ => False
  | .delTimer _, _ => False

instance Call.Plain.decidable : (call : Call) → (trace : Trace) → Decidable (call.Plain trace)
  | .addTimer delayTick callbackFunc _ _ answer, trace =>
      inferInstanceAs (Decidable (0 < delayTick ∧ delayTick < 2 ^ 32 ∧
        (callbackFunc ≠ 0 → trace.wheel.nodes answer = none)))
  | .onTick, _ => inferInstanceAs (Decidable True)
  | .initTimer _, _ => inferInstanceAs (Decidable False)
  | .delTimer _, _ => inferInstanceAs (Decidable False)

theorem callStep_linked (call : Call) (trace next : Trace) (linked : trace.wheel.Linked)
    (plain : call.Plain trace) (taken : callStep call trace = some next) : next.wheel.Linked := by
  cases call with
  | initTimer restored => exact plain.elim
  | delTimer theTimer => exact plain.elim
  | addTimer delayTick callbackFunc runOnce param answer =>
      obtain ⟨positive, short, fresh⟩ := plain
      obtain ⟨⟨wheel, handle⟩, added, equal⟩ := Option.bind_eq_some_iff.mp taken
      obtain rfl := Option.some.inj equal
      exact addTimer_linked linked positive short fresh added
  | onTick =>
      obtain ⟨⟨wheel, invoked⟩, ran, equal⟩ := Option.bind_eq_some_iff.mp taken
      obtain rfl := Option.some.inj equal
      exact onTick_linked linked ran

theorem start_linked : start.wheel.Linked :=
  ⟨Apart.empty, fun inside => absurd inside List.not_mem_nil, fun stored => (nomatch stored), by decide, rfl⟩

/-- The loop of a tick fires each of its timers once unless a periodic one before the last returns to the list. -/
theorem timerCalls_fireOnce (calls : List Call) (trace : Trace)
    (meets : Meets callStep Call.Plain calls start) (run : exec callStep calls start = some trace)
    (wheel : TimerWheel) (cascaded : casades trace.wheel = some wheel) :
    wheel.FiresOnce ↔ ∀ tn ∈ trace.wheel.turn.dropLast, ∀ node ∈ trace.wheel.nodes tn,
      ¬ node.Returns trace.wheel.currentTick := by
  have linked := exec_keeps callStep_linked calls start trace start_linked meets run
  obtain ⟨kept, tick⟩ := linked.casades cascaded
  rw [kept.firesOnce_iff]
  by_cases first : trace.wheel.currentTick % 256 = 0
  · -- a positive delay is no multiple of the list count, so nothing returns to the first list
    apply iff_of_true
    · rintro tn - ⟨node, stored, -, delay⟩
      have positive := (kept.regular stored).1
      rw [tick] at delay
      omega
    · rintro tn - node stored ⟨-, delay⟩
      have positive := (linked.regular stored).1
      omega
  · obtain rfl := Option.some.inj ((casades_between first).symm.trans cascaded)
    simp only [TimerWheel.Again, not_exists, not_and]

/-- Two timers of one delay fire once each, the periodic one last. -/
theorem timerCalls_fireOnce_last :
    ∃ trace, exec callStep [.addTimer 2 7 1 0 64, .addTimer 2 7 0 0 128, .onTick, .onTick] start =
        some trace ∧ ∃ wheel, casades trace.wheel = some wheel ∧
      (wheel.FiresOnce ↔ ∀ tn ∈ trace.wheel.turn.dropLast, ∀ node ∈ trace.wheel.nodes tn,
        ¬ node.Returns trace.wheel.currentTick) := by
  have ends : (exec callStep [.addTimer 2 7 1 0 64, .addTimer 2 7 0 0 128, .onTick, .onTick] start).isSome := by
    decide +kernel
  obtain ⟨trace, run⟩ := Option.isSome_iff_exists.mp ends
  have cascades : ((exec callStep [.addTimer 2 7 1 0 64, .addTimer 2 7 0 0 128, .onTick, .onTick]
      start).bind fun trace => casades trace.wheel).isSome := by
    decide +kernel
  rw [run, Option.bind_some] at cascades
  obtain ⟨wheel, cascaded⟩ := Option.isSome_iff_exists.mp cascades
  exact ⟨trace, run, wheel, cascaded, timerCalls_fireOnce _ trace (by decide +kernel) run wheel cascaded⟩

/-- These calls add two periodic timers of one delay and go up to the tick of this delay. -/
def pairCalls : List Call := [.addTimer 2 7 0 0 64, .addTimer 2 7 0 0 128, .onTick, .onTick]

/-- Two periodic timers of one delay keep the loop of their first tick from its end. -/
theorem timerCalls_endless :
    Meets callStep Call.Plain pairCalls start ∧
    ∃ trace, exec callStep pairCalls start = some trace ∧ casades trace.wheel = some trace.wheel ∧
      trace.wheel.turn = [64, 128] ∧ ∀ fuel, firingLoop fuel trace.wheel = none := by
  have plain : Meets callStep Call.Plain pairCalls start := by decide +kernel
  have shape : ∃ trace ∈ exec callStep pairCalls start, trace.wheel.currentTick % 256 ≠ 0 ∧
      trace.wheel.turn = [64, 128] ∧ trace.wheel.Again 64 ∧ trace.wheel.Again 128 := by
    decide +kernel
  obtain ⟨trace, run, between, turn, first, second⟩ := shape
  have linked := exec_keeps callStep_linked pairCalls start trace start_linked plain run
  refine ⟨plain, trace, run, casades_between between, turn, ?_⟩
  intro fuel
  apply (firingLoop_visits linked fuel).1
  rw [turn]
  exact visits_never (by decide) first second (by simp) (by simp)

end Syslib.Timer
