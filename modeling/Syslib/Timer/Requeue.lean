import Syslib.Timer.Cascade

namespace Syslib.Timer

open IntrusiveLists Runs

/-- A timer of this level is cascaded at the tick `tvSetSpan level * turn`, or it was moved up before. -/
structure Queued (tick runTick level turn : Nat) : Prop where
  below : level < 4
  later : 0 < turn
  ahead : tick ≤ tvSetSpan level * turn
  near : tvSetSpan level * turn < tick + 64 * tvSetSpan level
  covers : runTick / tvSetSpan level = turn ∨ runTick / tvSetSpan level = turn + 1

/-- The first list of a level above the lowest one is never cascaded; the others have a turn. -/
def Kept (tick runTick : Nat) : Slot → Prop
  | .tvSet0 _ => True
  | .tvSet level index =>
      level ≠ 0 ∧ index = 0 ∨ ∃ turn, index = turn % 64 ∧ Queued tick runTick level turn

/-- Every timer in a list is allocated and kept by it, and no timer is in two lists. -/
structure TimerWheel.Orderly (wheel : TimerWheel) : Prop where
  apart : Apart wheel.lists
  seated : ∀ {slot tn}, tn ∈ wheel.lists slot →
    ∃ node, wheel.nodes tn = some node ∧ Kept wheel.currentTick node.runTick slot
  short : ∀ {tn node}, wheel.nodes tn = some node → node.delayTick < 2 ^ 32

/-- The turn of a list that a tick cascades is this tick. -/
theorem Queued.turn_now {tick runTick level turn : Nat} (queued : Queued tick runTick level turn)
    (due : tick % tvSetSpan level = 0) (index : tvSetIdx level tick = turn % 64) :
    tvSetSpan level * turn = tick := by
  obtain ⟨zero, one, two, three, four⟩ := tvSetSpan_values
  obtain ⟨below, later, ahead, near, covers⟩ := queued
  rw [tvSetIdx] at index
  interval_cases level <;> simp only [zero, one, two, three] at * <;> omega

/-- A list that is cascaded now holds timers that run soon and not before this tick. -/
theorem Kept.cascaded {tick runTick : Nat} {slot : Slot} (kept : Kept tick runTick slot)
    (now : CascadedAt tick slot) : tick ≤ runTick ∧ runTick < tick + 2 ^ 32 ∧ tick % 256 = 0 := by
  obtain ⟨level, due, rfl⟩ := now
  have guard := (mem_dueLevels.mp due).2
  have whole := (levelDue_iff.mp guard).1
  rcases kept with ⟨upper, index⟩ | ⟨turn, index, queued⟩
  · obtain ⟨i, rfl⟩ := Nat.exists_eq_succ_of_ne_zero upper
    exact absurd index (casade_skips_first guard)
  · have turn_eq := queued.turn_now whole index
    obtain ⟨zero, one, two, three, four⟩ := tvSetSpan_values
    obtain ⟨below, later, ahead, near, covers⟩ := queued
    interval_cases level <;> simp only [zero, one, two, three] at * <;> omega

/-- A timer that no cascade of this tick moves is kept for the next tick. -/
theorem Kept.advance {tick runTick : Nat} {slot : Slot} (kept : Kept tick runTick slot)
    (passed : ¬ CascadedAt tick slot) : Kept (tick + 1) runTick slot := by
  cases slot with
  | tvSet0 index => trivial
  | tvSet level index =>
      rcases kept with dead | ⟨turn, rfl, queued⟩
      · exact Or.inl dead
      · by_cases now : tick = tvSetSpan level * turn
        · have below := queued.below
          have later := queued.later
          obtain ⟨zero, one, two, three, four⟩ := tvSetSpan_values
          have waiting : ¬ (LevelDue tick level ∧ turn % 64 = tvSetIdx level tick) := by
            rintro ⟨due, same⟩
            exact passed ⟨level, mem_dueLevels.mpr ⟨below, due⟩, by rw [same]⟩
          rw [levelDue_iff, tvSetIdx] at waiting
          left
          interval_cases level <;> simp [zero, one, two, three, four] at * <;> omega
        · have ahead := queued.ahead
          have near := queued.near
          exact Or.inr ⟨turn, rfl, { queued with ahead := by omega, near := by omega }⟩

/-- A list whose turn is later is not cascaded now. -/
theorem Queued.not_cascaded {tick runTick level turn : Nat} (queued : Queued tick runTick level turn)
    (later : tick < tvSetSpan level * turn) : ¬ CascadedAt tick (.tvSet level (turn % 64)) := by
  rintro ⟨other, due, same⟩
  obtain ⟨rfl, index⟩ := Slot.tvSet.inj same
  have whole := (levelDue_iff.mp (mem_dueLevels.mp due).2).1
  exact later.ne' (queued.turn_now whole index.symm)

theorem queued_delay {tick delay : Nat} (long : 256 ≤ delay) (short : delay < 2 ^ 32) :
    Queued tick (tick + delay) (topLevel delay)
        (tick / tvSetSpan (topLevel delay) + delay / tvSetSpan (topLevel delay)) ∧
      tick < tvSetSpan (topLevel delay) *
        (tick / tvSetSpan (topLevel delay) + delay / tvSetSpan (topLevel delay)) := by
  obtain ⟨zero, one, two, three, four⟩ := tvSetSpan_values
  obtain ⟨below, low, high⟩ := topLevel_bounds long short
  refine ⟨⟨below, ?_, ?_, ?_, ?_⟩, ?_⟩
  all_goals generalize topLevel delay = level at *
  all_goals interval_cases level <;> simp only [zero, one, two, three] at * <;> omega

/-- The list of a new delay keeps the timer, and this tick does not cascade it. -/
theorem kept_delay {tick delay : Nat} (short : delay < 2 ^ 32) :
    ∃ slot, timerSlot (tick + delay) tick = some slot ∧ Kept tick (tick + delay) slot ∧
      ¬ CascadedAt tick slot ∧
      (slot = .tvSet0 delay ∧ delay < 256 ∨ ∃ level index, slot = .tvSet level index) := by
  refine ⟨_, timerSlot_delay short, ?_⟩
  split_ifs with near
  · exact ⟨trivial, by simp [CascadedAt], Or.inl ⟨rfl, near⟩⟩
  · obtain ⟨queued, later⟩ := @queued_delay tick _ (Nat.le_of_not_lt near) short
    exact ⟨Or.inr ⟨_, rfl, queued⟩, queued.not_cascaded later, Or.inr ⟨_, _, rfl⟩⟩

/-- `_add_timer` puts the timer where its run tick asks for, and no cascade of this tick walks that list. -/
structure Requeued (tick : Nat) (node : TimerNode) (slot : Slot) : Prop where
  late : tick ≤ node.runTick
  place : timerSlot node.runTick tick = some slot
  target : slot = .tvSet0 (node.runTick % 256) ∧ node.runTick < tick + 256 ∨
    (∃ level index, slot = .tvSet level index) ∧ ¬ CascadedAt tick slot

/-- The cascade of a level empties its list, and every timer is on exactly one list again. -/
structure Cascaded (level : Nat) (wheel next : TimerWheel) : Prop where
  tick : next.currentTick = wheel.currentTick
  nodes : next.nodes = wheel.nodes
  emptied : next.lists (.tvSet level (tvSetIdx level wheel.currentTick)) = []
  moved : ∀ tn ∈ wheel.lists (.tvSet level (tvSetIdx level wheel.currentTick)), ∃ node slot,
    wheel.nodes tn = some node ∧ tn ∈ next.lists slot ∧ Requeued wheel.currentTick node slot
  stayed : ∀ slot, slot ≠ .tvSet level (tvSetIdx level wheel.currentTick) →
    wheel.lists slot ⊆ next.lists slot
  came : ∀ slot, ∀ tn ∈ next.lists slot, ∃ place, tn ∈ wheel.lists place
  apart : Apart next.lists

/-- The cascades of a tick run one after another. -/
def Cascades : List Nat → TimerWheel → TimerWheel → Prop
  | [], wheel, last => last = wheel
  | level :: rest, wheel, last =>
      ∃ next, casadeList level wheel = some next ∧ Cascaded level wheel next ∧ Cascades rest next last

/-- A timer of a cascaded list is requeued. -/
theorem Kept.requeued {tick : Nat} {node : TimerNode} {slot : Slot}
    (kept : Kept tick node.runTick slot) (now : CascadedAt tick slot) :
    ∃ place, Requeued tick node place ∧ Kept tick node.runTick place := by
  obtain ⟨late, soon, whole⟩ := kept.cascaded now
  obtain ⟨place, selected, held, later, target⟩ := @kept_delay tick (node.runTick - tick) (by omega)
  rw [Nat.add_sub_cancel' late] at selected held
  refine ⟨place, ⟨late, selected, ?_⟩, held⟩
  rcases target with ⟨rfl, near⟩ | upper
  · exact Or.inl ⟨by congr 1; omega, by omega⟩
  · exact Or.inr ⟨upper, later⟩

theorem Requeued.not_cascaded {tick : Nat} {node : TimerNode} {slot : Slot}
    (requeued : Requeued tick node slot) : ¬ CascadedAt tick slot := by
  rcases requeued.target with ⟨rfl, -⟩ | ⟨-, later⟩
  · simp [CascadedAt]
  · exact later

theorem TimerWheel.Orderly.relink {wheel : TimerWheel} (orderly : wheel.Orderly) {tn : Nat}
    {node : TimerNode} {slot : Slot} (kept : Kept wheel.currentTick node.runTick slot)
    (short : node.delayTick < 2 ^ 32) : (wheel.relink tn node slot).Orderly := by
  constructor
  · refine (orderly.apart.removeNode tn).pushBack slot ?_
    intro place inside
    exact (orderly.apart.mem_removeNode.mp inside).1 rfl
  · intro place other inside
    rcases mem_pushBack.mp inside with held | ⟨rfl, rfl⟩
    · obtain ⟨different, before⟩ := orderly.apart.mem_removeNode.mp held
      obtain ⟨record, stored, waits⟩ := orderly.seated before
      exact ⟨record, by simpa [TimerWheel.relink, different] using stored, waits⟩
    · exact ⟨node, by simp [TimerWheel.relink], kept⟩
  · intro other record stored
    by_cases same : other = tn
    · have equal : record = node := by simpa [TimerWheel.relink, same] using stored.symm
      exact equal ▸ short
    · exact orderly.short (by simpa [TimerWheel.relink, same] using stored)

theorem TimerWheel.mem_relink {wheel : TimerWheel} (apart : Apart wheel.lists) {tn other : Nat}
    {node : TimerNode} {slot place : Slot} : other ∈ (wheel.relink tn node slot).lists place ↔
      other ≠ tn ∧ other ∈ wheel.lists place ∨ other = tn ∧ place = slot := by
  rw [TimerWheel.relink, mem_pushBack, apart.mem_removeNode]

theorem delTimerNode_orderly {wheel : TimerWheel} (orderly : wheel.Orderly) (tn : Nat) :
    (delTimerNode wheel tn).Orderly := by
  constructor
  · exact orderly.apart.removeNode tn
  · intro place other inside
    obtain ⟨different, before⟩ := orderly.apart.mem_removeNode.mp inside
    obtain ⟨record, stored, waits⟩ := orderly.seated before
    exact ⟨record, by
      simpa [delTimerNode, TimerWheel.write, TimerWheel.lstRemoveNode, different] using stored, waits⟩
  · intro other record stored
    by_cases same : other = tn
    · simp [delTimerNode, TimerWheel.write, TimerWheel.lstRemoveNode, same] at stored
    · exact orderly.short
        (by simpa [delTimerNode, TimerWheel.write, TimerWheel.lstRemoveNode, same] using stored)

/-- The cascade has requeued the timers that are no longer in its list. -/
structure Cascading (level : Nat) (origin : TimerWheel) (rest : List Nat) (wheel : TimerWheel) : Prop where
  tick : wheel.currentTick = origin.currentTick
  nodes : wheel.nodes = origin.nodes
  here : wheel.lists (.tvSet level (tvSetIdx level origin.currentTick)) = rest
  orderly : wheel.Orderly
  moved : ∀ tn ∈ origin.lists (.tvSet level (tvSetIdx level origin.currentTick)), tn ∈ rest ∨
    ∃ node slot, origin.nodes tn = some node ∧ tn ∈ wheel.lists slot ∧
      Requeued origin.currentTick node slot
  stayed : ∀ slot, slot ≠ .tvSet level (tvSetIdx level origin.currentTick) →
    origin.lists slot ⊆ wheel.lists slot
  settled : ∀ slot, CascadedAt origin.currentTick slot → wheel.lists slot ⊆ origin.lists slot
  came : ∀ slot, ∀ tn ∈ wheel.lists slot, ∃ place, tn ∈ origin.lists place

theorem casadeList_requeue {origin wheel : TimerWheel} {level tn : Nat} {rest : List Nat}
    (due : level ∈ dueLevels origin.currentTick)
    (cascading : Cascading level origin (tn :: rest) wheel) :
    ∃ next, addTimerNode (wheel.lstRemoveNode tn) tn = some next ∧
      Cascading level origin rest next := by
  obtain ⟨tick, nodes, here, orderly, moved, stayed, settled, came⟩ := cascading
  have now : CascadedAt origin.currentTick (.tvSet level (tvSetIdx level origin.currentTick)) :=
    ⟨level, due, rfl⟩
  have inside : tn ∈ wheel.lists (.tvSet level (tvSetIdx level origin.currentTick)) :=
    here ▸ List.mem_cons_self
  obtain ⟨node, stored, kept⟩ := orderly.seated inside
  rw [tick] at kept
  obtain ⟨slot, requeued, held⟩ := kept.requeued now
  have later := requeued.not_cascaded
  have relinked := @TimerWheel.Orderly.relink _ orderly tn node slot (tick ▸ held) (orderly.short stored)
  have same : wheel.relink tn node slot =
      { wheel with lists := pushBack (removeNode wheel.lists tn) slot tn } := by
    rw [TimerWheel.relink, ← stored, Function.update_eq_self]
  refine ⟨wheel.relink tn node slot, ?_, tick, ?_, ?_, relinked, ?_, ?_, ?_, ?_⟩
  · rw [same]
    exact addTimerNode_relink stored (by rw [TimerWheel.lstRemoveNode, tick]; exact requeued.place)
  · rw [same, ← nodes]
  · have elsewhere : Slot.tvSet level (tvSetIdx level origin.currentTick) ≠ slot :=
      fun equal => later (equal ▸ now)
    exact (pushBack_elsewhere tn elsewhere).trans (removeNode_head here)
  · intro other before
    rcases moved other before with waits | ⟨record, place, found, linked, target⟩
    · rcases List.mem_cons.mp waits with rfl | waits
      · exact Or.inr ⟨node, slot, nodes ▸ stored, (TimerWheel.mem_relink orderly.apart).mpr
          (Or.inr ⟨rfl, rfl⟩), requeued⟩
      · exact Or.inl waits
    · have different : other ≠ tn := by
        rintro rfl
        exact target.not_cascaded (orderly.apart.unique inside linked ▸ now)
      exact Or.inr ⟨record, place, found, (TimerWheel.mem_relink orderly.apart).mpr
        (Or.inl ⟨different, linked⟩), target⟩
  · intro place elsewhere other before
    have linked := stayed place elsewhere before
    have different : other ≠ tn := by
      rintro rfl
      exact elsewhere (orderly.apart.unique linked inside)
    exact (TimerWheel.mem_relink orderly.apart).mpr (Or.inl ⟨different, linked⟩)
  · intro place cascaded other after
    rcases (TimerWheel.mem_relink orderly.apart).mp after with ⟨-, linked⟩ | ⟨-, rfl⟩
    · exact settled place cascaded linked
    · exact absurd cascaded later
  · intro place other after
    rcases (TimerWheel.mem_relink orderly.apart).mp after with ⟨-, linked⟩ | ⟨rfl, -⟩
    · exact came place other linked
    · exact came _ other inside

/-- A cascade that is due ends, and it keeps every list of this tick from filling again. -/
theorem casadeList_cascaded {wheel : TimerWheel} (orderly : wheel.Orderly) {level : Nat}
    (due : level ∈ dueLevels wheel.currentTick) :
    ∃ next, casadeList level wheel = some next ∧ Cascaded level wheel next ∧ next.Orderly ∧
      ∀ slot, CascadedAt wheel.currentTick slot → next.lists slot ⊆ wheel.lists slot := by
  have first : Cascading level wheel
      (wheel.lists (.tvSet level (tvSetIdx level wheel.currentTick))) wheel :=
    ⟨rfl, rfl, rfl, orderly, fun _ inside => Or.inl inside, fun _ _ => List.Subset.refl _,
      fun _ _ => List.Subset.refl _, fun slot _ inside => ⟨slot, inside⟩⟩
  obtain ⟨next, walked, last⟩ := walk_drains (fun _ _ cascading => Cascading.here cascading)
    (fun _ _ _ cascading => casadeList_requeue due cascading) _ _ wheel first (Nat.le_succ _)
  refine ⟨next, walked, ⟨last.tick, last.nodes, last.here, ?_, last.stayed, last.came,
    last.orderly.apart⟩, last.orderly, last.settled⟩
  intro tn inside
  exact (last.moved tn inside).resolve_left List.not_mem_nil

/-- The cascades of the given levels end; afterwards their lists are empty. -/
theorem foldlM_cascades (levels : List Nat) (wheel : TimerWheel) (orderly : wheel.Orderly)
    (due : levels ⊆ dueLevels wheel.currentTick) :
    ∃ last, levels.foldlM (fun wheel level => casadeList level wheel) wheel = some last ∧
      Cascades levels wheel last ∧ last.Orderly ∧ last.currentTick = wheel.currentTick ∧
      (∀ slot, CascadedAt wheel.currentTick slot → last.lists slot ⊆ wheel.lists slot) ∧
      ∀ level ∈ levels, last.lists (.tvSet level (tvSetIdx level wheel.currentTick)) = [] := by
  induction levels generalizing wheel with
  | nil => exact ⟨wheel, rfl, rfl, orderly, rfl, fun _ _ => List.Subset.refl _, by simp⟩
  | cons level rest ih =>
      have now : level ∈ dueLevels wheel.currentTick := due List.mem_cons_self
      obtain ⟨next, ran, cascaded, held, settled⟩ := casadeList_cascaded orderly now
      have tick := cascaded.tick
      obtain ⟨last, ranRest, cascades, final, same, kept, empty⟩ :=
        ih next held (tick ▸ fun other inside => due (List.mem_cons_of_mem level inside))
      rw [tick] at same kept empty
      refine ⟨last, ?_, ⟨next, ran, cascaded, cascades⟩, final, same, ?_, ?_⟩
      · rw [List.foldlM_cons, ran]
        exact ranRest
      · intro slot here
        exact List.Subset.trans (kept slot here) (settled slot here)
      · intro other inside
        rcases List.mem_cons.mp inside with rfl | inside
        · exact List.subset_nil.mp (cascaded.emptied ▸ kept _ ⟨other, now, rfl⟩)
        · exact empty other inside

theorem casades_cascades {wheel : TimerWheel} (orderly : wheel.Orderly) :
    ∃ last, casades wheel = some last ∧ Cascades (dueLevels wheel.currentTick) wheel last ∧
      last.Orderly ∧ last.currentTick = wheel.currentTick ∧
      ∀ slot, CascadedAt wheel.currentTick slot → last.lists slot = [] := by
  obtain ⟨last, ran, cascades, held, tick, -, empty⟩ :=
    foldlM_cascades _ wheel orderly (List.Subset.refl _)
  refine ⟨last, (casades_eq wheel).trans ran, cascades, held, tick, ?_⟩
  rintro slot ⟨level, due, rfl⟩
  exact empty level due

/-- The cascades of the tick are over, and their lists stay empty. -/
structure TimerWheel.Passed (tick : Nat) (wheel : TimerWheel) : Prop where
  orderly : wheel.Orderly
  now : wheel.currentTick = tick
  empty : ∀ slot, CascadedAt tick slot → wheel.lists slot = []

theorem removeNode_empty {lists : Slot → List Nat} {slot : Slot} (empty : lists slot = []) (tn : Nat) :
    removeNode lists tn slot = [] := by
  rw [removeNode, empty, List.erase_nil]

theorem runTimer_passed {tick tn : Nat} {state next : TimerWheel × List Invocation}
    (passed : state.1.Passed tick) (room : tick + 2 ^ 32 ≤ 2 ^ 64)
    (ran : runTimer tn state = some next) : next.1.Passed tick := by
  obtain ⟨wheel, invoked⟩ := state
  obtain ⟨orderly, now, empty⟩ := passed
  simp only at orderly now empty
  obtain ⟨node, stored, rest⟩ := Option.bind_eq_some_iff.mp ran
  by_cases once : node.runOnce ≠ 0
  · rw [if_pos once] at rest
    obtain rfl := Option.some.inj rest
    exact ⟨delTimerNode_orderly orderly tn, now, fun slot here => removeNode_empty (empty slot here) tn⟩
  · rw [if_neg once] at rest
    have short := orderly.short stored
    let later : TimerNode := { node with runTick := (wheel.currentTick + node.delayTick) % 2 ^ 64 }
    have fits : later.runTick = wheel.currentTick + node.delayTick := Nat.mod_eq_of_lt (by omega)
    obtain ⟨slot, selected, kept, elsewhere, -⟩ := @kept_delay wheel.currentTick node.delayTick short
    rw [← fits] at selected kept
    have entered : addTimerNode ((wheel.lstRemoveNode tn).write tn (some later)) tn =
        some (wheel.relink tn later slot) :=
      addTimerNode_relink (Function.update_self _ _ _) selected
    obtain ⟨final, added, same⟩ := Option.bind_eq_some_iff.mp rest
    obtain rfl := Option.some.inj (entered.symm.trans added)
    obtain rfl := Option.some.inj same
    refine ⟨orderly.relink kept short, now, ?_⟩
    intro place here
    have different : place ≠ slot := by
      rintro rfl
      exact elsewhere (now ▸ here)
    exact (pushBack_elsewhere tn different).trans (removeNode_empty (empty place here) tn)

theorem TimerWheel.Passed.advance {tick : Nat} {wheel : TimerWheel} (passed : wheel.Passed tick) :
    TimerWheel.Orderly { wheel with currentTick := tick + 1 } := by
  obtain ⟨orderly, rfl, empty⟩ := passed
  refine { orderly with seated := ?_ }
  intro slot tn inside
  obtain ⟨node, stored, kept⟩ := orderly.seated inside
  refine ⟨node, stored, kept.advance ?_⟩
  intro now
  rw [empty slot now] at inside
  exact List.not_mem_nil inside

/-- A tick whose firing loop ends leaves every timer where its cascade will come. -/
theorem onTick_orderly {wheel next : TimerWheel} {invoked : List Invocation} (orderly : wheel.Orderly)
    (room : wheel.currentTick + 2 ^ 32 ≤ 2 ^ 64) (ran : onTick wheel = some (next, invoked)) :
    next.Orderly := by
  obtain ⟨cascaded, ended, -, held, tick, empty⟩ := casades_cascades orderly
  simp only [onTick, ended, Option.bind_eq_bind, Option.bind_some] at ran
  obtain ⟨⟨last, log⟩, walked, same⟩ := Option.bind_eq_some_iff.mp ran
  obtain ⟨rfl, -⟩ := Prod.mk.inj (Option.some.inj same)
  have passed : last.Passed wheel.currentTick := @walk_keeps _ _ _ _ _
    (fun state => state.1.Passed wheel.currentTick)
    (fun tn state next kept ran => runTimer_passed kept room ran) _ _ _ _ ⟨held, tick, empty⟩ walked
  have fits : (last.currentTick + 1) % 2 ^ 64 = wheel.currentTick + 1 := by
    rw [passed.now]
    exact Nat.mod_eq_of_lt (by omega)
  rw [fits]
  exact passed.advance

/-- The tick is far from the wrap of the counter. -/
def Call.Early (call : Call) (trace : Trace) : Prop :=
  call.Fits trace.wheel ∧ trace.wheel.currentTick + 2 ^ 32 ≤ 2 ^ 64

instance Call.Early.decidable (call : Call) (trace : Trace) : Decidable (call.Early trace) :=
  inferInstanceAs (Decidable (_ ∧ _))

theorem addTimer_orderly {wheel next : TimerWheel} (orderly : wheel.Orderly)
    {delayTick callbackFunc param answer handle : Nat} {runOnce : Int}
    (fits : (Call.addTimer delayTick callbackFunc runOnce param answer).Fits wheel)
    (room : wheel.currentTick + 2 ^ 32 ≤ 2 ^ 64)
    (added : addTimer wheel delayTick callbackFunc runOnce param answer = some (next, handle)) :
    next.Orderly := by
  unfold addTimer at added
  split_ifs at added with failed
  · obtain ⟨rfl, -⟩ := Prod.mk.inj (Option.some.inj added)
    exact orderly
  · obtain ⟨named, real⟩ := not_or.mp failed
    obtain ⟨short, fresh⟩ := fits
    have unlinked : removeNode wheel.lists answer = wheel.lists := by
      refine removeNode_unlinked fun slot inside => ?_
      obtain ⟨node, stored, -⟩ := orderly.seated inside
      simp [fresh named real] at stored
    have whole : (wheel.added delayTick callbackFunc runOnce param).runTick =
        wheel.currentTick + delayTick := Nat.mod_eq_of_lt (by omega)
    obtain ⟨slot, selected, kept, -, -⟩ := @kept_delay wheel.currentTick delayTick short
    rw [← whole] at selected kept
    have entered : addTimerNode (wheel.write answer
        (some (wheel.added delayTick callbackFunc runOnce param))) answer =
        some (wheel.relink answer (wheel.added delayTick callbackFunc runOnce param) slot) := by
      rw [TimerWheel.relink, unlinked]
      exact addTimerNode_relink (Function.update_self _ _ _) selected
    obtain ⟨last, linked, same⟩ := Option.map_eq_some_iff.mp added
    obtain rfl := Option.some.inj (entered.symm.trans linked)
    obtain ⟨rfl, -⟩ := Prod.mk.inj same
    exact orderly.relink kept short

theorem callStep_orderly {call : Call} {trace next : Trace} (orderly : trace.wheel.Orderly)
    (early : call.Early trace) (taken : callStep call trace = some next) : next.wheel.Orderly := by
  obtain ⟨fits, room⟩ := early
  cases call with
  | initTimer restored =>
      obtain rfl := Option.some.inj taken
      cases restored with
      | false => exact orderly
      | true => exact ⟨Apart.empty, fun inside => absurd inside List.not_mem_nil, orderly.short⟩
  | addTimer delayTick callbackFunc runOnce param answer =>
      obtain ⟨⟨wheel, handle⟩, added, same⟩ := Option.bind_eq_some_iff.mp taken
      obtain rfl := Option.some.inj same
      exact addTimer_orderly orderly fits room added
  | delTimer theTimer =>
      obtain ⟨wheel, deleted, same⟩ := Option.bind_eq_some_iff.mp taken
      obtain rfl := Option.some.inj same
      unfold delTimer at deleted
      split_ifs at deleted
      · exact Option.some.inj deleted ▸ orderly
      · exact Option.some.inj deleted ▸ delTimerNode_orderly orderly theTimer
  | onTick =>
      obtain ⟨⟨wheel, invoked⟩, ran, same⟩ := Option.bind_eq_some_iff.mp taken
      obtain rfl := Option.some.inj same
      exact onTick_orderly orderly room ran

theorem start_orderly : start.wheel.Orderly :=
  ⟨Apart.empty, fun inside => absurd inside List.not_mem_nil, fun stored => by simp [start] at stored⟩

/-- At every tick of a run, the cascades end and requeue the timers of their lists. -/
theorem timerCalls_cascades (calls : List Call) (trace : Trace)
    (meets : Meets callStep Call.Early calls start) (run : exec callStep calls start = some trace) :
    ∃ last, casades trace.wheel = some last ∧
      Cascades (dueLevels trace.wheel.currentTick) trace.wheel last := by
  have orderly := @exec_keeps _ _ callStep Call.Early (fun trace => trace.wheel.Orderly)
    (fun _ _ _ held early taken => callStep_orderly held early taken) calls start trace start_orderly
    meets run
  obtain ⟨last, ended, cascades, -⟩ := casades_cascades orderly
  exact ⟨last, ended, cascades⟩

/-- Timer 64 waits in the list that tick 256 cascades. -/
theorem timerCalls_cascades_once :
    ∃ trace, exec callStep (.addTimer 300 7 1 9 64 :: List.replicate 256 .onTick) start = some trace ∧
      ∃ last, casades trace.wheel = some last ∧
        Cascades (dueLevels trace.wheel.currentTick) trace.wheel last := by
  have ends : (exec callStep (.addTimer 300 7 1 9 64 :: List.replicate 256 .onTick) start).isSome := by
    decide +kernel
  obtain ⟨trace, run⟩ := Option.isSome_iff_exists.mp ends
  exact ⟨trace, run, timerCalls_cascades _ trace (by decide +kernel) run⟩

/-- No timer is in the wheel at this tick. -/
def idle (tick : Nat) : Trace := ⟨⟨tick, fun _ => [], fun _ => none, []⟩, []⟩

theorem onTick_idle (tick : Nat) : callStep .onTick (idle tick) = some (idle ((tick + 1) % 2 ^ 64)) := by
  have cascaded : casades (idle tick).wheel = some (idle tick).wheel := by
    rw [casades_eq]
    generalize dueLevels (idle tick).wheel.currentTick = levels
    induction levels with
    | nil => rfl
    | cons level rest ih => exact ih
  rw [callStep, onTick, cascaded]
  rfl

theorem onTicks_idle (count : Nat) (small : count < 2 ^ 64) :
    exec callStep (List.replicate count .onTick) start = some (idle count) := by
  induction count with
  | zero => rfl
  | succ count ih =>
      rw [List.replicate_succ', exec_append, ih (by omega), Option.bind_some, exec_cons, onTick_idle,
        Nat.mod_eq_of_lt small]
      rfl

theorem meets_onTicks (count : Nat) (trace : Trace) :
    Meets callStep (fun call trace => call.Fits trace.wheel) (List.replicate count .onTick) trace := by
  induction count generalizing trace with
  | zero => trivial
  | succ count ih => exact ⟨trivial, fun next _ => ih next⟩

/-- The run tick of timer 64 wraps to 43, and its list is cascaded 256 ticks before the wrap. -/
theorem timerCalls_wrapped :
    Meets callStep (fun call trace => call.Fits trace.wheel)
      (List.replicate (2 ^ 64 - 257) .onTick ++ [.addTimer 300 7 1 9 64, .onTick]) start ∧
    ∃ trace, exec callStep
        (List.replicate (2 ^ 64 - 257) .onTick ++ [.addTimer 300 7 1 9 64, .onTick]) start = some trace ∧
      trace.wheel.currentTick = 2 ^ 64 - 256 ∧ 0 ∈ dueLevels trace.wheel.currentTick ∧
      64 ∈ trace.wheel.lists (.tvSet 0 (tvSetIdx 0 trace.wheel.currentTick)) ∧
      (trace.wheel.nodes 64).map TimerNode.runTick = some 43 := by
  have waited := onTicks_idle (2 ^ 64 - 257) (by omega)
  have last : ∃ trace ∈ exec callStep [.addTimer 300 7 1 9 64, .onTick] (idle (2 ^ 64 - 257)),
      trace.wheel.currentTick = 2 ^ 64 - 256 ∧ 0 ∈ dueLevels trace.wheel.currentTick ∧
      64 ∈ trace.wheel.lists (.tvSet 0 (tvSetIdx 0 trace.wheel.currentTick)) ∧
      (trace.wheel.nodes 64).map TimerNode.runTick = some 43 := by decide +kernel
  rw [meets_append, exec_append, waited, Option.bind_some]
  refine ⟨⟨meets_onTicks _ _, ?_⟩, last⟩
  rintro next ⟨⟩
  decide +kernel

end Syslib.Timer
