import Syslib.Timer.Placement

namespace Syslib.Timer

open IntrusiveLists

/-- A run-once timer without a delay stays in the first list of `_tv_set0`. -/
def TimerNode.Stray (node : TimerNode) : Prop := node.runOnce ≠ 0 ∧ node.delayTick = 0

def Seated (done : Slot → Prop) (tick : Nat) (node : TimerNode) (slot : Slot) : Prop :=
  Placed done tick node.runTick slot ∨ node.Stray ∧ slot = .tvSet0 0

/-- The delay is an `unsigned int`, and a periodic timer has one. -/
def TimerNode.Regular (node : TimerNode) : Prop :=
  node.delayTick < 2 ^ 32 ∧ (node.runOnce = 0 → 0 < node.delayTick)

/-- Each allocated timer is in exactly one list, this list suits its run tick, and there are no orphans. -/
structure TimerWheel.Sound (done : Slot → Prop) (wheel : TimerWheel) : Prop where
  apart : Apart wheel.lists
  seated : ∀ {slot tn}, tn ∈ wheel.lists slot →
    ∃ node, wheel.nodes tn = some node ∧ Seated done wheel.currentTick node slot
  linked : ∀ {tn node}, wheel.nodes tn = some node → ∃ slot, tn ∈ wheel.lists slot
  regular : ∀ {tn node}, wheel.nodes tn = some node → node.Regular
  whole : wheel.orphans = []

theorem Seated.imp {done other : Slot → Prop} {tick : Nat} {node : TimerNode} {slot : Slot}
    (seated : Seated done tick node slot) (less : other slot → done slot) :
    Seated other tick node slot := by
  rcases seated with placed | stray
  · exact Or.inl (placed.imp less)
  · exact Or.inr stray

/-- The update moves one timer, or links a new one, and keeps the others. -/
theorem TimerWheel.Sound.relink {done : Slot → Prop} {wheel : TimerWheel} (sound : wheel.Sound done)
    {tn : Nat} {node : TimerNode} {slot : Slot} (seated : Seated done wheel.currentTick node slot)
    (regular : node.Regular) :
    TimerWheel.Sound done { wheel with
      lists := pushBack (removeNode wheel.lists tn) slot tn
      nodes := Function.update wheel.nodes tn (some node) } := by
  constructor
  · refine (sound.apart.removeNode tn).pushBack slot ?_
    intro place inside
    exact (sound.apart.mem_removeNode.mp inside).1 rfl
  · intro place other inside
    rcases mem_pushBack.mp inside with kept | ⟨rfl, rfl⟩
    · obtain ⟨different, before⟩ := sound.apart.mem_removeNode.mp kept
      obtain ⟨record, stored, held⟩ := sound.seated before
      exact ⟨record, by simpa [different] using stored, held⟩
    · exact ⟨node, by simp, seated⟩
  · intro other record stored
    by_cases same : other = tn
    · exact ⟨slot, mem_pushBack.mpr (Or.inr ⟨same, rfl⟩)⟩
    · obtain ⟨place, inside⟩ := sound.linked (by simpa [same] using stored)
      exact ⟨place, mem_pushBack.mpr (Or.inl (sound.apart.mem_removeNode.mpr ⟨same, inside⟩))⟩
  · intro other record stored
    by_cases same : other = tn
    · have equal : record = node := by simpa [same] using stored.symm
      exact equal ▸ regular
    · exact sound.regular (by simpa [same] using stored)
  · exact sound.whole

theorem delTimerNode_sound {done : Slot → Prop} {wheel : TimerWheel} (sound : wheel.Sound done)
    (tn : Nat) : (delTimerNode wheel tn).Sound done := by
  constructor
  · exact sound.apart.removeNode tn
  · intro place other inside
    obtain ⟨different, before⟩ := sound.apart.mem_removeNode.mp inside
    obtain ⟨record, stored, held⟩ := sound.seated before
    exact ⟨record, by simpa [delTimerNode, TimerWheel.write, TimerWheel.lstRemoveNode, different] using stored, held⟩
  · intro other record stored
    by_cases same : other = tn
    · simp [delTimerNode, TimerWheel.write, TimerWheel.lstRemoveNode, same] at stored
    · obtain ⟨place, inside⟩ := sound.linked
        (by simpa [delTimerNode, TimerWheel.write, TimerWheel.lstRemoveNode, same] using stored)
      exact ⟨place, sound.apart.mem_removeNode.mpr ⟨same, inside⟩⟩
  · intro other record stored
    by_cases same : other = tn
    · simp [delTimerNode, TimerWheel.write, TimerWheel.lstRemoveNode, same] at stored
    · exact sound.regular (by simpa [delTimerNode, TimerWheel.write, TimerWheel.lstRemoveNode, same] using stored)
  · exact sound.whole

/-- Timers whose turn is not now may count as served. -/
theorem TimerWheel.Sound.settle {done other : Slot → Prop} {wheel : TimerWheel}
    (sound : wheel.Sound done)
    (served : ∀ level turn, other (.tvSet level (turn % 64)) → wheel.lists (.tvSet level (turn % 64)) ≠ [] →
      done (.tvSet level (turn % 64)) ∨ Idle wheel.currentTick level turn) :
    wheel.Sound other := by
  refine { sound with seated := ?_ }
  intro slot tn inside
  obtain ⟨node, stored, placed | stray⟩ := sound.seated inside
  · refine ⟨node, stored, Or.inl (placed.settle ?_)⟩
    rintro level turn rfl strict
    exact served level turn strict (List.ne_nil_of_mem inside)
  · exact ⟨node, stored, Or.inr stray⟩

/-- The walk has emptied a part of its list; the other lists of the level are served. -/
structure Descends (done : Slot → Prop) (origin : TimerWheel) (level : Nat) (rest : List Nat)
    (wheel : TimerWheel) : Prop where
  tick : wheel.currentTick = origin.currentTick
  nodes : wheel.nodes = origin.nodes
  here : wheel.lists (.tvSet level (tvSetIdx level origin.currentTick)) = rest
  sound : wheel.Sound fun slot => done slot ∨
    (∃ index, slot = .tvSet level index) ∧
      slot ≠ .tvSet level (tvSetIdx level origin.currentTick)

theorem addTimerNode_relink {wheel : TimerWheel} {tn : Nat} {node : TimerNode} {slot : Slot}
    (stored : wheel.nodes tn = some node)
    (place : timerSlot node.runTick wheel.currentTick = some slot) :
    addTimerNode wheel tn = some { wheel with lists := pushBack wheel.lists slot tn } := by
  unfold addTimerNode
  rw [stored, Option.bind_eq_bind, Option.bind_some, place, TimerWheel.link]

/-- One node of the walked list goes where its run tick asks for. -/
theorem casadeList_step {done : Slot → Prop} {origin wheel : TimerWheel} {level tn : Nat}
    {rest : List Nat} (due : origin.currentTick % tvSetSpan level = 0)
    (descends : Descends done origin level (tn :: rest) wheel) :
    ∃ next, addTimerNode (wheel.lstRemoveNode tn) tn = some next ∧
      Descends done origin level rest next := by
  obtain ⟨tick, nodes, here, sound⟩ := descends
  rw [← tick] at due here sound
  obtain ⟨node, stored, placed | stray⟩ := sound.seated (here ▸ List.mem_cons_self)
  · obtain ⟨turn, index, waits⟩ := placed
    have now := waits.turn_now due index
    obtain ⟨late, near, punctual⟩ := waits.punctual now
    obtain ⟨slot, place, seat, _⟩ := placed_delay (waits.short near) punctual
    rw [Nat.add_sub_cancel' late] at place seat
    have elsewhere := placed_elsewhere seat due
    have relinked := @TimerWheel.Sound.relink _ _ sound tn _ _ (Or.inl (seat.imp fun _ => trivial)) (sound.regular stored)
    rw [← stored, Function.update_eq_self] at relinked
    refine ⟨_, addTimerNode_relink stored place, tick, nodes, ?_, ?_⟩
    · rw [← tick]
      exact (pushBack_elsewhere tn elsewhere.symm).trans (removeNode_head here)
    · rw [← tick]
      exact relinked
  · exact absurd stray.2 (by simp)

theorem casadeList_sound {done : Slot → Prop} {wheel : TimerWheel} (level : Nat)
    (sound : wheel.Sound done) (due : wheel.currentTick % tvSetSpan level = 0) :
    ∃ next, casadeList level wheel = some next ∧ next.currentTick = wheel.currentTick ∧
      next.nodes = wheel.nodes ∧
      next.Sound fun slot => done slot ∨ ∃ index, slot = .tvSet level index := by
  have first : Descends done wheel level
      (wheel.lists (.tvSet level (tvSetIdx level wheel.currentTick))) wheel := by
    refine ⟨rfl, rfl, rfl, sound.settle ?_⟩
    rintro place turn (before | ⟨⟨index, same⟩, other⟩) _
    · exact Or.inl before
    · obtain ⟨rfl, rfl⟩ : place = level ∧ turn % 64 = index := by simpa using same
      refine Or.inr fun strict runTick waits now => other ?_
      have turn_eq : turn = wheel.currentTick / tvSetSpan place :=
        (Nat.div_eq_of_eq_mul_right (tvSetSpan_pos place) now.symm).symm
      rw [tvSetIdx, ← turn_eq]
  obtain ⟨next, walked, ⟨tick, nodes, here, last⟩⟩ := walk_drains
    (fun rest wheel descends => Descends.here descends)
    (fun tn rest wheel descends => casadeList_step due descends) _ _ wheel first (Nat.le_succ _)
  refine ⟨next, walked, tick, nodes, last.settle ?_⟩
  rintro place turn (before | ⟨index, same⟩) occupied
  · exact Or.inl (Or.inl before)
  · refine Or.inl (Or.inr ⟨⟨index, same⟩, fun equal => occupied ?_⟩)
    rw [equal, here]

/-- The cascades keep the clock and the timers, and they serve the lists of this tick. -/
structure Served (origin : TimerWheel) (done : Slot → Prop) (wheel : TimerWheel) : Prop where
  tick : wheel.currentTick = origin.currentTick
  nodes : wheel.nodes = origin.nodes
  sound : wheel.Sound done

/-- A guard that skips a cascade skips it only when no turn of its level is now. -/
theorem Served.stage {origin wheel : TimerWheel} {done : Slot → Prop}
    (served : Served origin done wheel) (level : Nat) (guard : Prop) [Decidable guard]
    (taken : guard → origin.currentTick % tvSetSpan level = 0)
    (skipped : ¬ guard → ∀ turn, Idle origin.currentTick level turn) :
    ∃ next, casadeIf guard (casadeList level) wheel = some next ∧
      Served origin (fun slot => done slot ∨ ∃ index, slot = .tvSet level index) next := by
  obtain ⟨tick, nodes, sound⟩ := served
  unfold casadeIf
  split_ifs with now
  · obtain ⟨next, walked, sameTick, sameNodes, last⟩ :=
      casadeList_sound level sound (by rw [tick]; exact taken now)
    exact ⟨next, walked, sameTick.trans tick, sameNodes.trans nodes, last⟩
  · refine ⟨wheel, rfl, tick, nodes, sound.settle ?_⟩
    rintro place turn (before | ⟨index, same⟩) _
    · exact Or.inl before
    · obtain ⟨rfl, _⟩ : place = level ∧ turn % 64 = index := by simpa using same
      exact Or.inr (tick ▸ skipped now turn)

theorem casade0_skipped {tick : Nat} (skipped : ¬ (0 < tick ∧ tick % 256 = 0)) (turn : Nat) :
    Idle tick 0 turn := by
  intro strict runTick waits now
  have later := waits.later
  rw [tvSetSpan_values.1] at now
  omega

theorem casade_skipped {tick i : Nat} (skipped : ¬ casadeDue i tick) (turn : Nat) :
    Idle tick (i + 1) turn := by
  rintro strict runTick waits rfl
  have index : turn % 64 ≠ 0 := by
    rcases waits.served with zero | both
    · omega
    · exact both.1
  refine skipped ⟨?_, Nat.mul_mod_right _ _⟩
  rw [tvSetSpan_succ (i + 1), Nat.mul_comm 64, Nat.mul_mod_mul_left]
  exact Nat.mul_ne_zero (tvSetSpan_pos _).ne' index

/-- No cascade ever serves the first list of a level above the lowest one. -/
theorem casade_skips_first {tick i : Nat} (due : casadeDue i tick) : tvSetIdx (i + 1) tick ≠ 0 := by
  intro zero
  refine due.1 ?_
  have whole := Nat.div_add_mod tick (tvSetSpan (i + 1))
  rw [due.2, Nat.add_zero] at whole
  rw [tvSetSpan_succ (i + 1), Nat.mul_comm 64, ← whole, Nat.mul_mod_mul_left]
  exact Nat.mul_eq_zero.mpr (Or.inr zero)

/-- After the cascades each timer of this tick is in the list that the tick runs. -/
theorem casades_served {wheel : TimerWheel} (sound : wheel.Sound fun _ => False) :
    ∃ next, casades wheel = some next ∧ Served wheel (fun _ => True) next := by
  have start : Served wheel (fun _ => False) wheel := ⟨rfl, rfl, sound⟩
  obtain ⟨first, run0, start⟩ := start.stage 0 (0 < wheel.currentTick ∧ wheel.currentTick % 256 = 0)
    (fun due => due.2) casade0_skipped
  obtain ⟨second, run1, start⟩ := start.stage 1 (casadeDue 0 wheel.currentTick)
    (fun due => due.2) casade_skipped
  obtain ⟨third, run2, start⟩ := start.stage 2 (casadeDue 1 wheel.currentTick)
    (fun due => due.2) casade_skipped
  obtain ⟨fourth, run3, start⟩ := start.stage 3 (casadeDue 2 wheel.currentTick)
    (fun due => due.2) casade_skipped
  refine ⟨fourth, ?_, start.tick, start.nodes, start.sound.settle ?_⟩
  · simp only [casades, Option.bind_eq_bind, Option.bind_eq_some_iff]
    exact ⟨first, run0, second, run1, third, run2, run3⟩
  · intro level turn _ occupied
    obtain ⟨tn, inside⟩ := List.exists_mem_of_ne_nil _ occupied
    obtain ⟨node, _, placed | stray⟩ := start.sound.seated inside
    · obtain ⟨other, _, waits⟩ := placed
      have below := waits.below
      left
      interval_cases level <;> simp
    · exact absurd stray.2 (by simp)

def TimerNode.invocation (tn : Nat) (node : TimerNode) : Invocation :=
  ⟨node.callbackFunc, tn, node.funcParam⟩

/-- A run-once timer ends with its invocation; a periodic one gets its next run tick. -/
def TimerNode.reload (tick : Nat) (node : TimerNode) : Option TimerNode :=
  if node.runOnce ≠ 0 then none
  else some { node with runTick := (tick + node.delayTick) % 2 ^ 64 }

theorem Seated.mem_tvSlots {done : Slot → Prop} {tick : Nat} {node : TimerNode} {slot : Slot}
    (seated : Seated done tick node slot) : slot ∈ tvSlots := by
  simp only [tvSlots, List.mem_append, List.mem_map, List.mem_flatMap, List.mem_range]
  rcases seated with placed | ⟨_, rfl⟩
  · cases slot with
    | tvSet0 index =>
        have same := placed.1
        exact Or.inl ⟨index, by omega, rfl⟩
    | tvSet level index =>
        obtain ⟨turn, same, waits⟩ := placed
        exact Or.inr ⟨level, waits.below, index, by omega, rfl⟩
  · exact Or.inl ⟨0, by omega, rfl⟩

/-- A periodic timer of this tick can be put back at the right place. -/
def TimerNode.Reloads (tick : Nat) (node : TimerNode) : Prop :=
  node.runOnce = 0 → node.runTick = tick →
    tick + node.delayTick < 2 ^ 64 ∧ Punctual tick node.delayTick

instance (tick : Nat) (node : TimerNode) : Decidable (node.Reloads tick) :=
  inferInstanceAs (Decidable (_ → _))

def TimerWheel.Reloads (wheel : TimerWheel) : Prop :=
  ∀ slot ∈ tvSlots, ∀ tn ∈ wheel.lists slot, ∀ node ∈ wheel.nodes tn, node.Reloads wheel.currentTick

instance (wheel : TimerWheel) : Decidable wheel.Reloads :=
  inferInstanceAs (Decidable (∀ slot ∈ tvSlots, _))

theorem TimerWheel.Sound.reloads {done : Slot → Prop} {wheel : TimerWheel} (sound : wheel.Sound done)
    (reloads : wheel.Reloads) {tn : Nat} {node : TimerNode} (stored : wheel.nodes tn = some node) :
    node.Reloads wheel.currentTick := by
  obtain ⟨slot, inside⟩ := sound.linked stored
  obtain ⟨other, _, seated⟩ := sound.seated inside
  exact reloads slot seated.mem_tvSlots tn inside node stored

/-- The walk has invoked the callbacks of the front part of the list. -/
structure WalkedTo (origin : TimerWheel) (rest : List Nat)
    (state : TimerWheel × List Invocation) : Prop where
  tick : state.1.currentTick = origin.currentTick
  here : state.1.lists (.tvSet0 (origin.currentTick % 256)) = rest
  sound : state.1.Sound fun _ => True
  split : ∃ front, origin.lists (.tvSet0 (origin.currentTick % 256)) = front ++ rest ∧
    (∀ tn, state.1.nodes tn =
      if tn ∈ front then (origin.nodes tn).bind (TimerNode.reload origin.currentTick)
      else origin.nodes tn) ∧
    state.2 = front.filterMap fun tn => (origin.nodes tn).map (TimerNode.invocation tn)

/-- The state after a timer left its list and entered the given one with new contents. -/
def TimerWheel.relink (wheel : TimerWheel) (tn : Nat) (node : TimerNode) (slot : Slot) : TimerWheel :=
  { wheel with
    lists := pushBack (removeNode wheel.lists tn) slot tn
    nodes := Function.update wheel.nodes tn (some node) }

/-- A punctual timer enters the wheel at a list that this tick does not run. -/
theorem addTimerNode_enters {done : Slot → Prop} {wheel : TimerWheel} (sound : wheel.Sound done)
    (tn : Nat) {node : TimerNode} (regular : node.Regular)
    (start : node.runTick = wheel.currentTick + node.delayTick)
    (punctual : Punctual wheel.currentTick node.delayTick) :
    ∃ slot, addTimerNode ((wheel.lstRemoveNode tn).write tn (some node)) tn =
        some (wheel.relink tn node slot) ∧ (wheel.relink tn node slot).Sound done ∧
      (0 < node.delayTick → slot ≠ .tvSet0 (wheel.currentTick % 256)) := by
  obtain ⟨slot, place, seat, elsewhere⟩ := placed_delay regular.1 punctual
  rw [← start] at place seat
  refine ⟨slot, ?_, sound.relink (Or.inl (seat.imp fun _ => trivial)) regular, elsewhere⟩
  exact addTimerNode_relink (Function.update_self _ _ _) place

theorem runTimer_step {origin : TimerWheel} (sound : origin.Sound fun _ => True)
    (reloads : ∀ {tn node}, origin.nodes tn = some node → node.Reloads origin.currentTick)
    (tn : Nat) (rest : List Nat) (state : TimerWheel × List Invocation)
    (runs : WalkedTo origin (tn :: rest) state) :
    ∃ next, runTimer tn state = some next ∧ WalkedTo origin rest next := by
  obtain ⟨wheel, invoked⟩ := state
  obtain ⟨tick, here, now, front, split, nodes, log⟩ := runs
  simp only at tick here now nodes log
  have fresh : tn ∉ front := by
    have once := sound.apart.nodup (.tvSet0 (origin.currentTick % 256))
    rw [split, List.nodup_append] at once
    intro inside
    exact once.2.2 tn inside tn List.mem_cons_self rfl
  have member : tn ∈ origin.lists (.tvSet0 (origin.currentTick % 256)) := by simp [split]
  obtain ⟨node, stored, seat⟩ := sound.seated member
  have current : wheel.nodes tn = some node := by rw [nodes, if_neg fresh, stored]
  have grown : ∀ other, Function.update wheel.nodes tn (node.reload wheel.currentTick) other =
      if other ∈ front ++ [tn] then (origin.nodes other).bind (TimerNode.reload origin.currentTick)
      else origin.nodes other := by
    intro other
    by_cases same : other = tn
    · subst same
      simp [stored, tick]
    · simp [same, nodes]
  have longer : origin.lists (.tvSet0 (origin.currentTick % 256)) = front ++ [tn] ++ rest := by
    simp [split]
  have logged : invoked ++ [node.invocation tn] =
      (front ++ [tn]).filterMap fun tn => (origin.nodes tn).map (TimerNode.invocation tn) := by
    simp [log, stored]
  by_cases once : node.runOnce ≠ 0
  · rw [TimerNode.reload, if_pos once] at grown
    refine ⟨(delTimerNode wheel tn, invoked ++ [node.invocation tn]), ?_, tick,
      removeNode_head here, delTimerNode_sound now tn, front ++ [tn], longer, grown, logged⟩
    simp [runTimer, current, once, TimerNode.invocation]
  · have periodic : node.runOnce = 0 := not_not.mp once
    have due : node.runTick = origin.currentTick := by
      rcases seat with placed | stray
      · exact placed.tick_now
      · exact absurd stray.1.1 once
    obtain ⟨fits, punctual⟩ := reloads stored periodic due
    have regular := sound.regular stored
    rw [← tick] at fits punctual here
    let later := { node with runTick := (wheel.currentTick + node.delayTick) % 2 ^ 64 }
    obtain ⟨slot, entered, kept, elsewhere⟩ := @addTimerNode_enters _ _ now tn later regular
      (Nat.mod_eq_of_lt fits) punctual
    have away := elsewhere (regular.2 periodic)
    rw [TimerNode.reload, if_neg once] at grown
    refine ⟨(wheel.relink tn later slot, invoked ++ [node.invocation tn]), ?_, tick, ?_, kept,
      front ++ [tn], longer, grown, logged⟩
    · simp only [runTimer, current, Option.bind_eq_bind, Option.bind_some, if_neg once]
      exact congrArg (Option.bind · fun next => some (next, invoked ++ [node.invocation tn])) entered
    · rw [← tick]
      exact (pushBack_elsewhere tn away.symm).trans (removeNode_head here)

/-- A tick invokes the timers of this tick, each once, and drops or reloads exactly these. -/
structure Ticked (wheel : TimerWheel) (due : List Nat) (next : TimerWheel)
    (invoked : List Invocation) : Prop where
  tick : next.currentTick = wheel.currentTick + 1
  sound : next.Sound fun _ => False
  once : due.Nodup
  members : ∀ {tn node}, wheel.nodes tn = some node → 0 < node.delayTick →
    (tn ∈ due ↔ node.runTick = wheel.currentTick)
  nodes : ∀ tn, next.nodes tn =
    if tn ∈ due then (wheel.nodes tn).bind (TimerNode.reload wheel.currentTick) else wheel.nodes tn
  log : invoked = due.filterMap fun tn => (wheel.nodes tn).map (TimerNode.invocation tn)

/-- After the cascades one list holds exactly the timers of this tick, besides the strays. -/
theorem TimerWheel.Sound.mem_now {wheel : TimerWheel} (sound : wheel.Sound fun _ => True) {tn : Nat}
    {node : TimerNode} (stored : wheel.nodes tn = some node) (positive : 0 < node.delayTick) :
    tn ∈ wheel.lists (.tvSet0 (wheel.currentTick % 256)) ↔ node.runTick = wheel.currentTick := by
  have seated : ∀ {slot}, tn ∈ wheel.lists slot →
      Placed (fun _ => True) wheel.currentTick node.runTick slot := by
    intro slot inside
    obtain ⟨found, equal, placed | stray⟩ := sound.seated inside
    · obtain rfl : node = found := Option.some.inj (stored.symm.trans equal)
      exact placed
    · obtain rfl : node = found := Option.some.inj (stored.symm.trans equal)
      exact absurd stray.1.2 positive.ne'
  constructor
  · intro inside
    exact (seated inside).tick_now
  · intro due
    obtain ⟨slot, inside⟩ := sound.linked stored
    have placed := seated inside
    rw [due] at placed
    rw [← placed.slot_now]
    exact inside

theorem TimerWheel.Sound.advance {wheel : TimerWheel} (sound : wheel.Sound fun _ => True)
    (empty : wheel.lists (.tvSet0 (wheel.currentTick % 256)) = []) :
    TimerWheel.Sound (fun _ => False) { wheel with currentTick := wheel.currentTick + 1 } := by
  refine { sound with seated := ?_ }
  intro slot tn inside
  obtain ⟨node, stored, placed | stray⟩ := sound.seated inside
  · refine ⟨node, stored, Or.inl (placed.advance ?_)⟩
    rintro rfl
    simp [empty] at inside
  · exact ⟨node, stored, Or.inr stray⟩

theorem onTick_ticked {wheel : TimerWheel} (sound : wheel.Sound fun _ => False)
    (reloads : wheel.Reloads) (fits : wheel.currentTick + 1 < 2 ^ 64) :
    ∃ next invoked due, onTick wheel = some (next, invoked) ∧ Ticked wheel due next invoked := by
  obtain ⟨served, cascaded, tick, nodes, now⟩ := casades_served sound
  have again : ∀ {tn node}, served.nodes tn = some node → node.Reloads served.currentTick := by
    rw [tick, nodes]
    exact sound.reloads reloads
  have start : WalkedTo served (served.lists (.tvSet0 (served.currentTick % 256))) (served, []) :=
    ⟨rfl, rfl, now, [], rfl, by simp, rfl⟩
  obtain ⟨⟨last, invoked⟩, walked, same, empty, done, front, split, records, log⟩ := walk_drains
    (fun _ _ runs => runs.here) (runTimer_step now again) _ _ _ start (Nat.le_succ _)
  rw [List.append_nil] at split
  simp only at same empty
  have late : (last.currentTick + 1) % 2 ^ 64 = last.currentTick + 1 :=
    Nat.mod_eq_of_lt (by omega)
  refine ⟨{ last with currentTick := (last.currentTick + 1) % 2 ^ 64 }, invoked, front, ?_, ?_⟩
  · simp only [onTick, Option.bind_eq_bind, Option.bind_eq_some_iff]
    exact ⟨served, cascaded, _, walked, rfl⟩
  · rw [late]
    refine ⟨by rw [same, tick], done.advance (same ▸ empty), split ▸ now.apart.nodup _, ?_, ?_, ?_⟩
    · intro tn node stored positive
      rw [← split, ← tick]
      exact now.mem_now (nodes ▸ stored) positive
    · simpa only [tick, nodes] using records
    · simpa only [nodes] using log

end Syslib.Timer
