import Syslib.Timer.Firing

namespace Syslib.Timer

open IntrusiveLists Runs

/-- A callback may add timers and delete timers. -/
inductive Action where
  | add (delayTick callbackFunc : Nat) (runOnce : Int) (param answer : Nat)
  | del (theTimer : Nat)
  deriving DecidableEq, Repr

def actionStep : Action → TimerWheel → Option TimerWheel
  | .add delayTick callbackFunc runOnce param answer, wheel =>
      (addTimer wheel delayTick callbackFunc runOnce param answer).map Prod.fst
  | .del theTimer, wheel => delTimer wheel theTimer

/-- The delays are positive, the allocator gives out unused memory, and a deleted timer is live. -/
def Action.Fits : Action → TimerWheel → Prop
  | .add delayTick callbackFunc _ _ answer, wheel => 0 < delayTick ∧ delayTick < 2 ^ 32 ∧
      (callbackFunc ≠ 0 → wheel.nodes answer = none)
  | .del theTimer, wheel => (wheel.nodes theTimer).isSome

instance Action.Fits.decidable (action : Action) (wheel : TimerWheel) :
    Decidable (action.Fits wheel) := by
  cases action <;> unfold Action.Fits <;> infer_instance

/-- The timers that a callback deletes. -/
def deletions (actions : List Action) : List Nat :=
  actions.filterMap fun
    | .del theTimer => some theTimer
    | .add _ _ _ _ _ => none

/-- The saved pointer of the loop is a timer, the end of the list, or memory that was given back. -/
inductive Cursor where
  | node (tn : Nat)
  | freed
  | last
  deriving DecidableEq, Repr

def Cursor.timer : Cursor → Option Nat
  | .node tn => some tn
  | .freed => none
  | .last => none

/-- The loop stands before a round; the logs keep the timers invoked, released and deleted so far. -/
structure Walking where
  wheel : TimerWheel
  cursor : Cursor
  served : List Nat
  released : List Nat
  deleted : List Nat

/-- The loop starts at the first timer of the list. -/
def walkStart (wheel : TimerWheel) : Walking :=
  ⟨wheel, wheel.turn.head?.elim .last .node, [], [], []⟩

/-- The pointer that the loop saved before the callback. -/
def cursorAfter (next : Option Nat) (gone : List Nat) : Cursor :=
  match next with
  | none => .last
  | some tn => if tn ∈ gone then .freed else .node tn

/-- One round of the loop of `on_tick`; it has no result when it uses memory that was given back. -/
def roundStep (actions : List Action) (walking : Walking) : Option Walking :=
  match walking.cursor with
  | .last => some walking
  | .freed => none
  | .node tn => do
      let next := successor walking.wheel.turn tn
      let _ ← walking.wheel.nodes tn
      let wheel ← exec actionStep actions walking.wheel
      -- the loop reads `_run_once` after the callback
      if tn ∈ deletions actions then none
      else
        let node ← wheel.nodes tn
        let (after, _) ← runTimer tn (wheel, [])
        let released := walking.released ++ deletions actions
        some
          { wheel := after
            cursor := cursorAfter next (deletions actions)
            -- memory that was given back and used again holds another timer
            served := if tn ∈ walking.released then walking.served else walking.served ++ [tn]
            released := if node.runOnce ≠ 0 then released ++ [tn] else released
            deleted := walking.deleted ++ deletions actions }

/-- The callback deletes neither its own timer nor the one that the loop has saved. -/
def Spares (actions : List Action) (walking : Walking) : Prop :=
  ∀ tn ∈ walking.cursor.timer, tn ∉ deletions actions ∧
    ∀ next ∈ successor walking.wheel.turn tn, next ∉ deletions actions

instance Spares.decidable (actions : List Action) (walking : Walking) :
    Decidable (Spares actions walking) :=
  inferInstanceAs (Decidable (∀ tn ∈ walking.cursor.timer, _ ∧ ∀ next ∈ successor _ _, _))

/-- The timer before the last one does not go back to the list. -/
def Passes (walking : Walking) : Prop :=
  ∀ tn ∈ walking.cursor.timer, walking.wheel.Again tn → successor walking.wheel.turn tn = none

instance Passes.decidable (walking : Walking) : Decidable (Passes walking) :=
  inferInstanceAs (Decidable (∀ tn ∈ walking.cursor.timer, _))

/-- The callback keeps to the interface, and its round leaves the walk of the list intact. -/
structure Round (actions : List Action) (walking : Walking) : Prop where
  fits : Meets actionStep Action.Fits actions walking.wheel
  spares : Spares actions walking
  passes : Passes walking

instance Round.decidable (actions : List Action) (walking : Walking) : Decidable (Round actions walking) :=
  decidable_of_iff (Meets actionStep Action.Fits actions walking.wheel ∧ Spares actions walking ∧
    Passes walking) ⟨fun parts => ⟨parts.1, parts.2.1, parts.2.2⟩,
      fun round => ⟨round.fits, round.spares, round.passes⟩⟩

/-- Each timer of the list is invoked at most once, and in the end each one that no callback deleted was. -/
structure Fair (due : List Nat) (walking : Walking) : Prop where
  once : walking.served.Nodup
  done : walking.cursor = .last → ∀ tn ∈ due, tn ∈ walking.served ∨ tn ∈ walking.deleted

/-- The actions keep the timers that they do not delete, and the list of the tick grows at its end. -/
structure Acted (wheel : TimerWheel) (gone : List Nat) (next : TimerWheel) : Prop where
  tick : next.currentTick = wheel.currentTick
  linked : next.Linked
  turn : ∃ extra, next.turn = (wheel.turn.filter fun tn => tn ∉ gone) ++ extra ∧
    ∀ tn ∈ extra, tn ∈ gone ∨ wheel.nodes tn = none
  nodes : ∀ tn node, tn ∉ gone → wheel.nodes tn = some node → next.nodes tn = some node

theorem Acted.refl {wheel : TimerWheel} (linked : wheel.Linked) : Acted wheel [] wheel :=
  ⟨rfl, linked, ⟨[], by simp, by simp⟩, fun _ _ _ stored => stored⟩

theorem Acted.trans {wheel middle next : TimerWheel} {first second : List Nat}
    (acted : Acted wheel first middle) (later : Acted middle second next) :
    Acted wheel (first ++ second) next := by
  obtain ⟨extra, turn, fresh⟩ := acted.turn
  obtain ⟨more, grown, freshMore⟩ := later.turn
  refine ⟨later.tick.trans acted.tick, later.linked,
    ⟨(extra.filter fun tn => tn ∉ second) ++ more, ?_, ?_⟩, ?_⟩
  · rw [grown, turn, List.filter_append, List.filter_filter, List.append_assoc]
    congr 1
    apply List.filter_congr
    intro tn _
    rw [← Bool.decide_and]
    congr 1
    rw [List.mem_append, not_or]
    exact propext and_comm
  · intro tn inside
    rcases List.mem_append.mp inside with old | new
    · rcases fresh tn (List.mem_of_mem_filter old) with gone | none_
      · exact Or.inl (List.mem_append_left _ gone)
      · exact Or.inr none_
    · rcases freshMore tn new with gone | none_
      · exact Or.inl (List.mem_append_right _ gone)
      · by_cases gone : tn ∈ first
        · exact Or.inl (List.mem_append_left _ gone)
        · refine Or.inr (Option.eq_none_iff_forall_ne_some.mpr ?_)
          intro node stored
          rw [acted.nodes tn node gone stored] at none_
          cases none_
  · intro tn node outside stored
    rw [List.mem_append, not_or] at outside
    exact later.nodes tn node outside.2 (acted.nodes tn node outside.1 stored)

theorem actionStep_acted {action : Action} {wheel : TimerWheel} (linked : wheel.Linked)
    (fits : action.Fits wheel) :
    ∃ next, actionStep action wheel = some next ∧ Acted wheel (deletions [action]) next := by
  cases action with
  | add delayTick callbackFunc runOnce param answer =>
      obtain ⟨positive, short, fresh⟩ := fits
      by_cases failed : callbackFunc = 0 ∨ answer = 0
      · exact ⟨wheel, by simp [actionStep, addTimer, failed], Acted.refl linked⟩
      · obtain ⟨named, real⟩ := not_or.mp failed
        have free := fresh named
        let node := wheel.added delayTick callbackFunc runOnce param
        have regular : 0 < node.delayTick ∧ node.delayTick < 2 ^ 32 := ⟨positive, short⟩
        refine ⟨(wheel.write answer (some node)).link answer (timerSlot node.runTick wheel.currentTick),
          by rw [actionStep, addTimer_eq wheel runOnce param answer named real, Option.map_some], ?_,
          linked.added free regular _, ?_, ?_⟩
        · cases timerSlot node.runTick wheel.currentTick <;> rfl
        · cases timerSlot node.runTick wheel.currentTick with
          | none => exact ⟨[], by simp [deletions, TimerWheel.turn, TimerWheel.link, TimerWheel.write], by simp⟩
          | some slot =>
              by_cases here : slot = .tvSet0 (wheel.currentTick % 256)
              · subst here
                refine ⟨[answer], ?_, ?_⟩
                · simp [deletions, TimerWheel.turn, TimerWheel.link, TimerWheel.write, pushBack]
                · intro tn inside
                  exact Or.inr (List.mem_singleton.mp inside ▸ free)
              · refine ⟨[], ?_, by simp⟩
                have kept := @pushBack_elsewhere _ _ _ wheel.lists _ _ answer (Ne.symm here)
                simpa [deletions, TimerWheel.turn, TimerWheel.link, TimerWheel.write] using kept
        · intro tn record _ stored
          have different : tn ≠ answer := by
            rintro rfl
            rw [free] at stored
            cases stored
          cases timerSlot node.runTick wheel.currentTick <;>
            exact (Function.update_of_ne different _ _).trans stored
  | del theTimer =>
      obtain ⟨node, live⟩ := Option.isSome_iff_exists.mp fits
      refine ⟨delTimerNode wheel theTimer, by simp [actionStep, delTimer, live, linked.whole], rfl,
        linked.deleted theTimer, ⟨[], ?_, by simp⟩, ?_⟩
      · have nodup : wheel.turn.Nodup := linked.apart.nodup _
        rw [List.append_nil]
        change wheel.turn.erase theTimer = _
        rw [nodup.erase_eq_filter]
        apply List.filter_congr
        intro tn _
        rw [Bool.eq_iff_iff]
        simp [deletions]
      · intro tn node outside stored
        have different : tn ≠ theTimer := by simpa [deletions] using outside
        exact (Function.update_of_ne different _ _).trans stored

/-- A callback that keeps to the interface leaves the other timers of the list in their order. -/
theorem actions_acted {actions : List Action} {wheel : TimerWheel} (linked : wheel.Linked)
    (fits : Meets actionStep Action.Fits actions wheel) :
    ∃ next, exec actionStep actions wheel = some next ∧ Acted wheel (deletions actions) next := by
  induction actions generalizing wheel with
  | nil => exact ⟨wheel, rfl, Acted.refl linked⟩
  | cons action rest ih =>
      obtain ⟨middle, taken, acted⟩ := actionStep_acted linked fits.1
      obtain ⟨next, ran, later⟩ := ih acted.linked (fits.2 middle taken)
      refine ⟨next, by rw [exec_cons, taken]; exact ran, ?_⟩
      have split : deletions (action :: rest) = deletions [action] ++ deletions rest := by
        rw [← List.singleton_append, deletions, List.filterMap_append]
        rfl
      rw [split]
      exact acted.trans later

/-- The walk stands on a linked timer, and it has not met the timers that are still to come. -/
structure Safe (due : List Nat) (walking : Walking) : Prop where
  linked : walking.wheel.Linked
  stands : walking.cursor = .last ∨
    ∃ tn rest, walking.cursor = .node tn ∧ walking.wheel.turn = tn :: rest
  once : walking.served.Nodup
  behind : ∀ tn ∈ walking.served, tn ∈ walking.released ∨
    (walking.wheel.nodes tn).isSome ∧ (walking.cursor ≠ .last → tn ∉ walking.wheel.turn)
  ahead : ∀ tn ∈ due, tn ∈ walking.served ∨ tn ∈ walking.deleted ∨
    walking.cursor ≠ .last ∧ tn ∈ walking.wheel.turn
  origin : ∀ tn ∈ walking.released, tn ∈ walking.served ∨ tn ∈ walking.deleted

theorem Safe.fair {due : List Nat} {walking : Walking} (safe : Safe due walking) : Fair due walking := by
  refine ⟨safe.once, ?_⟩
  intro ended tn inside
  rcases safe.ahead tn inside with served | deleted | ⟨open_, -⟩
  · exact Or.inl served
  · exact Or.inr deleted
  · exact absurd ended open_

theorem walkStart_safe {wheel : TimerWheel} (linked : wheel.Linked) : Safe wheel.turn (walkStart wheel) := by
  refine ⟨linked, ?_, List.nodup_nil, fun _ inside => absurd inside List.not_mem_nil, ?_,
    fun _ inside => absurd inside List.not_mem_nil⟩
  · cases shape : wheel.turn with
    | nil => exact Or.inl (by simp [walkStart, shape])
    | cons tn rest => exact Or.inr ⟨tn, rest, by simp [walkStart, shape], shape⟩
  · intro tn inside
    refine Or.inr (Or.inr ⟨?_, inside⟩)
    obtain ⟨first, rest, shape⟩ := List.exists_cons_of_ne_nil (List.ne_nil_of_mem inside)
    simp [walkStart, shape]

/-- A round invokes the timer, and the list loses what the callback deleted. -/
structure Stepped (actions : List Action) (walking : Walking) (tn : Nat) (rest : List Nat)
    (next : Walking) : Prop where
  linked : next.wheel.Linked
  cursor : next.cursor = cursorAfter rest.head? (deletions actions)
  served : next.served = if tn ∈ walking.released then walking.served else walking.served ++ [tn]
  deleted : next.deleted = walking.deleted ++ deletions actions
  released : ∀ other, other ∈ next.released ↔ other ∈ walking.released ∨ other ∈ deletions actions ∨
    other = tn ∧ next.wheel.nodes tn = none
  turn : ∃ extra, (∀ other ∈ extra, other ∈ deletions actions ∨ walking.wheel.nodes other = none) ∧
    next.wheel.turn = rotated walking.wheel.Again tn
      ((rest.filter fun other => other ∉ deletions actions) ++ extra)
  nodes : ∀ other record, other ≠ tn → other ∉ deletions actions →
    walking.wheel.nodes other = some record → next.wheel.nodes other = some record

/-- The round of a callback that spares its own timer has a result. -/
theorem roundStep_stepped {walking : Walking} (linked : walking.wheel.Linked) {tn : Nat} {rest : List Nat}
    (stands : walking.cursor = .node tn) (here : walking.wheel.turn = tn :: rest) {actions : List Action}
    (fits : Meets actionStep Action.Fits actions walking.wheel) (spared : tn ∉ deletions actions) :
    ∃ next, roundStep actions walking = some next ∧ Stepped actions walking tn rest next := by
  obtain ⟨wheel, ran, acted⟩ := actions_acted linked fits
  obtain ⟨node, stored⟩ := linked.alive (here ▸ List.mem_cons_self : tn ∈ walking.wheel.turn)
  obtain ⟨extra, turn, fresh⟩ := acted.turn
  have shape : wheel.turn = tn :: ((rest.filter fun tn => tn ∉ deletions actions) ++ extra) := by
    rw [turn, here, List.filter_cons_of_pos (by simpa using spared), List.cons_append]
  have kept := acted.nodes tn node spared stored
  obtain ⟨after, moved, turned⟩ := runTimer_turned acted.linked shape kept []
  have again : wheel.Again tn ↔ walking.wheel.Again tn := by
    simp [TimerWheel.Again, stored, kept, acted.tick]
  let next : Walking :=
    { wheel := after
      cursor := cursorAfter rest.head? (deletions actions)
      served := if tn ∈ walking.released then walking.served else walking.served ++ [tn]
      released := if node.runOnce ≠ 0 then walking.released ++ deletions actions ++ [tn]
        else walking.released ++ deletions actions
      deleted := walking.deleted ++ deletions actions }
  refine ⟨next, ?_, turned.linked, rfl, rfl, rfl, ?_, ⟨extra, fresh, ?_⟩, ?_⟩
  · rw [roundStep, stands]
    simp only [Option.bind_eq_bind, stored, Option.bind_some, ran, if_neg spared, kept, moved, here,
      successor_head]
    rfl
  · intro other
    by_cases single : node.runOnce ≠ 0
    · simp [next, single, turned.dropped single]
    · obtain ⟨later, reloaded, -⟩ := turned.reloaded (not_not.mp single)
      simp [next, single, reloaded]
  · change after.turn = _
    rw [turned.turn]
    simp only [rotated, again]
  · intro other record different outside known
    exact (turned.others other different).trans (acted.nodes other record outside known)

/-- A round that keeps to its condition keeps the walk intact. -/
theorem roundStep_safe {due : List Nat} (actions : List Action) (walking : Walking)
    (safe : Safe due walking) (round : Round actions walking) :
    ∃ next, roundStep actions walking = some next ∧ Safe due next := by
  rcases safe.stands with ended | ⟨tn, rest, stands, here⟩
  · exact ⟨walking, by rw [roundStep, ended], safe⟩
  have timer : tn ∈ walking.cursor.timer := by
    rw [stands]
    rfl
  obtain ⟨spared, sparedNext⟩ := round.spares tn timer
  obtain ⟨next, ran, stepped⟩ := roundStep_stepped safe.linked stands here round.fits spared
  obtain ⟨extra, fresh, turn⟩ := stepped.turn
  have apart := safe.linked.apart.nodup (.tvSet0 (walking.wheel.currentTick % 256))
  obtain ⟨alone, -⟩ := List.nodup_cons.mp (here ▸ apart : (tn :: rest).Nodup)
  have open_ : walking.cursor ≠ .last := by simp [stands]
  have inside : tn ∈ walking.wheel.turn := here ▸ List.mem_cons_self
  have closed : rest = [] → next.cursor = .last := by
    rintro rfl
    exact stepped.cursor
  -- the round takes the timer from the list when others follow it
  have passed : rest ≠ [] → next.wheel.turn = (rest.filter fun other => other ∉ deletions actions) ++ extra := by
    intro more
    rw [turn, rotated, if_neg]
    intro again
    have ends := round.passes tn timer again
    rw [here, successor_head, List.head?_eq_none_iff] at ends
    exact more ends
  have fromRest : ∀ {other}, other ∈ next.wheel.turn → next.cursor ≠ .last → other ∉ deletions actions →
      (walking.wheel.nodes other).isSome → other ∈ rest := by
    intro other member going kept alive
    rw [passed fun none_ => going (closed none_)] at member
    rcases List.mem_append.mp member with old | new
    · exact List.mem_of_mem_filter old
    · rcases fresh other new with gone | unused
      · exact absurd gone kept
      · simp [unused] at alive
  have served : ∀ other, other ∈ next.served ↔
      other ∈ walking.served ∨ other = tn ∧ tn ∉ walking.released := by
    intro other
    rw [stepped.served]
    split_ifs with reused <;> simp [reused]
  have deleted : ∀ other, other ∈ next.deleted ↔ other ∈ walking.deleted ∨ other ∈ deletions actions := by
    intro other
    rw [stepped.deleted, List.mem_append]
  refine ⟨next, ran, stepped.linked, ?_, ?_, ?_, ?_, ?_⟩
  · cases rest with
    | nil => exact Or.inl (closed rfl)
    | cons follower more =>
        have kept : follower ∉ deletions actions := by
          apply sparedNext
          rw [here, successor_head]
          rfl
        refine Or.inr ⟨follower, (more.filter fun other => other ∉ deletions actions) ++ extra, ?_, ?_⟩
        · simp [stepped.cursor, cursorAfter, kept]
        · rw [passed (List.cons_ne_nil _ _), List.filter_cons_of_pos (by simpa using kept),
            List.cons_append]
  · rw [stepped.served]
    split_ifs with reused
    · exact safe.once
    · have unserved : tn ∉ walking.served := by
        intro before
        rcases safe.behind tn before with released | ⟨-, away⟩
        · exact reused released
        · exact away open_ inside
      simpa [List.nodup_append] using ⟨safe.once, fun other member same => unserved (same ▸ member)⟩
  · intro other member
    rw [stepped.released]
    by_cases gone : other ∈ deletions actions
    · exact Or.inl (Or.inr (Or.inl gone))
    rcases (served other).mp member with before | ⟨rfl, -⟩
    · rcases safe.behind other before with released | ⟨alive, away⟩
      · exact Or.inl (Or.inl released)
      · obtain ⟨record, known⟩ := Option.isSome_iff_exists.mp alive
        have different : other ≠ tn := fun same => away open_ (same ▸ inside)
        refine Or.inr ⟨by simp [stepped.nodes other record different gone known], ?_⟩
        intro going back
        have old := fromRest back going gone alive
        exact away open_ (here ▸ List.mem_cons_of_mem tn old)
    · by_cases dropped : next.wheel.nodes other = none
      · exact Or.inl (Or.inr (Or.inr ⟨rfl, dropped⟩))
      · refine Or.inr ⟨Option.isSome_iff_ne_none.mpr dropped, ?_⟩
        intro going back
        obtain ⟨record, known⟩ := safe.linked.alive inside
        exact alone (fromRest back going gone (by simp [known]))
  · intro other member
    rw [served, deleted]
    rcases safe.ahead other member with before | before | ⟨-, linked⟩
    · exact Or.inl (Or.inl before)
    · exact Or.inr (Or.inl (Or.inl before))
    · rw [here] at linked
      rcases List.mem_cons.mp linked with rfl | later
      · by_cases reused : other ∈ walking.released
        · rcases safe.origin other reused with before | before
          · exact Or.inl (Or.inl before)
          · exact Or.inr (Or.inl (Or.inl before))
        · exact Or.inl (Or.inr ⟨rfl, reused⟩)
      · by_cases gone : other ∈ deletions actions
        · exact Or.inr (Or.inl (Or.inr gone))
        · have more : rest ≠ [] := List.ne_nil_of_mem later
          refine Or.inr (Or.inr ⟨?_, ?_⟩)
          · obtain ⟨follower, tail, rfl⟩ := List.exists_cons_of_ne_nil more
            rw [stepped.cursor, List.head?_cons, cursorAfter]
            split_ifs <;> simp
          · rw [passed more]
            exact List.mem_append_left _ (List.mem_filter.mpr ⟨later, by simpa using gone⟩)
  · intro other member
    rw [served, deleted]
    rcases (stepped.released other).mp member with before | gone | ⟨rfl, -⟩
    · rcases safe.origin other before with known | known
      · exact Or.inl (Or.inl known)
      · exact Or.inr (Or.inl known)
    · exact Or.inr (Or.inr gone)
    · by_cases reused : other ∈ walking.released
      · rcases safe.origin other reused with known | known
        · exact Or.inl (Or.inl known)
        · exact Or.inr (Or.inl known)
      · exact Or.inl (Or.inr ⟨rfl, reused⟩)

/-- A callback that keeps to the interface spares the two timers exactly when the loop can go on. -/
theorem roundStep_continues {due : List Nat} {actions : List Action} {walking : Walking}
    (safe : Safe due walking) (fits : Meets actionStep Action.Fits actions walking.wheel) :
    (∃ next, roundStep actions walking = some next ∧ next.cursor ≠ .freed) ↔ Spares actions walking := by
  rcases safe.stands with ended | ⟨tn, rest, stands, here⟩
  · have still : roundStep actions walking = some walking := by rw [roundStep, ended]
    refine ⟨fun _ tn standing => ?_, fun _ => ⟨walking, still, by simp [ended]⟩⟩
    rw [ended] at standing
    cases standing
  have timer : tn ∈ walking.cursor.timer := by
    rw [stands]
    rfl
  by_cases spared : tn ∈ deletions actions
  · have stuck : roundStep actions walking = none := by
      rw [roundStep, stands]
      cases known : walking.wheel.nodes tn with
      | none => simp [known]
      | some node =>
          cases exec actionStep actions walking.wheel <;> simp [known, spared]
    constructor
    · rintro ⟨next, ran, -⟩
      rw [stuck] at ran
      cases ran
    · intro spares
      exact absurd spared (spares tn timer).1
  obtain ⟨next, ran, stepped⟩ := roundStep_stepped safe.linked stands here fits spared
  have same : next.cursor ≠ .freed ↔ ∀ follower ∈ rest.head?, follower ∉ deletions actions := by
    rw [stepped.cursor]
    cases rest.head? with
    | none => simp [cursorAfter]
    | some follower => by_cases gone : follower ∈ deletions actions <;> simp [cursorAfter, gone]
  constructor
  · rintro ⟨other, result, going⟩ handle standing
    obtain rfl : next = other := Option.some.inj (ran.symm.trans result)
    obtain rfl : tn = handle := Option.some.inj (Eq.trans (Eq.symm timer) standing)
    refine ⟨spared, fun follower found => same.mp going follower ?_⟩
    rwa [here, successor_head] at found
  · intro spares
    refine ⟨next, ran, same.mpr fun follower found => (spares tn timer).2 follower ?_⟩
    rwa [here, successor_head]

/-- Between the ticks the program adds and deletes timers; a tick carries what its callbacks do. -/
inductive Event where
  | act (action : Action)
  | tick (rounds : List (List Action))
  deriving DecidableEq, Repr

/-- A tick with callbacks ends when its loop comes to the end of the list. -/
def tickStep (rounds : List (List Action)) (wheel : TimerWheel) : Option TimerWheel := do
  let cascaded ← casades wheel
  let walking ← exec roundStep rounds (walkStart cascaded)
  if walking.cursor = .last then
    some { walking.wheel with currentTick := (walking.wheel.currentTick + 1) % 2 ^ 64 }
  else none

def eventStep : Event → TimerWheel → Option TimerWheel
  | .act action, wheel => actionStep action wheel
  | .tick rounds, wheel => tickStep rounds wheel

def Event.Fits : Event → TimerWheel → Prop
  | .act action, wheel => action.Fits wheel
  | .tick rounds, wheel => ∀ cascaded ∈ casades wheel, Meets roundStep Round rounds (walkStart cascaded)

instance Event.Fits.decidable (event : Event) (wheel : TimerWheel) : Decidable (event.Fits wheel) := by
  cases event <;> unfold Event.Fits <;> infer_instance

theorem eventStep_linked (event : Event) (wheel next : TimerWheel) (linked : wheel.Linked)
    (fits : event.Fits wheel) (taken : eventStep event wheel = some next) : next.Linked := by
  cases event with
  | act action =>
      obtain ⟨after, ran, acted⟩ := actionStep_acted linked fits
      obtain rfl := Option.some.inj (ran.symm.trans taken)
      exact acted.linked
  | tick rounds =>
      obtain ⟨cascaded, first, later⟩ := Option.bind_eq_some_iff.mp taken
      obtain ⟨kept, -⟩ := linked.casades first
      obtain ⟨walking, ran, safe⟩ := exec_invariant roundStep_safe rounds _ (walkStart_safe kept)
        (fits cascaded first)
      obtain ⟨same, ran', equal⟩ := Option.bind_eq_some_iff.mp later
      obtain rfl := Option.some.inj (ran.symm.trans ran')
      split_ifs at equal
      obtain rfl := Option.some.inj equal
      exact { safe.linked with word := Nat.mod_lt _ (by decide) }

/-- The loop serves each timer once and uses no released memory while the callbacks spare its two pointers. -/
theorem onTick_callbacks (events : List Event) (wheel : TimerWheel)
    (meets : Meets eventStep Event.Fits events start.wheel)
    (run : exec eventStep events start.wheel = some wheel) :
    ∃ cascaded, casades wheel = some cascaded ∧
      ∀ rounds, Meets roundStep Round rounds (walkStart cascaded) →
        ∃ walking, exec roundStep rounds (walkStart cascaded) = some walking ∧
          Fair cascaded.turn walking ∧
          ∀ actions, Meets actionStep Action.Fits actions walking.wheel →
            ((∃ next, roundStep actions walking = some next ∧ next.cursor ≠ .freed) ↔
              Spares actions walking) := by
  have linked := exec_keeps eventStep_linked events start.wheel wheel start_linked meets run
  obtain ⟨cascaded, ends, kept, -⟩ := linked.casades_ends
  refine ⟨cascaded, ends, ?_⟩
  intro rounds good
  obtain ⟨walking, ran, safe⟩ := exec_invariant roundStep_safe rounds _ (walkStart_safe kept) good
  exact ⟨walking, ran, safe.fair, fun actions fits => roundStep_continues safe fits⟩

/-- Two timers come due together, and a third one later. -/
def twinEvents : List Event :=
  [.act (.add 2 7 1 0 64), .act (.add 2 7 1 0 128), .act (.add 9 7 1 0 192), .tick [], .tick []]

/-- The first callback deletes the third timer and adds another one; the loop serves both timers. -/
theorem onTick_callbacks_spared :
    ∃ wheel, exec eventStep twinEvents start.wheel = some wheel ∧
      ∃ cascaded, casades wheel = some cascaded ∧
        ∃ walking, exec roundStep [[.del 192, .add 3 7 1 0 256], []] (walkStart cascaded) = some walking ∧
          Fair cascaded.turn walking := by
  have ends : (exec eventStep twinEvents start.wheel).isSome := by decide +kernel
  obtain ⟨wheel, run⟩ := Option.isSome_iff_exists.mp ends
  have rounds : ∀ wheel ∈ exec eventStep twinEvents start.wheel, ∀ cascaded ∈ casades wheel,
      Meets roundStep Round [[.del 192, .add 3 7 1 0 256], []] (walkStart cascaded) := by
    decide +kernel
  obtain ⟨cascaded, found, serves⟩ := onTick_callbacks twinEvents wheel (by decide +kernel) run
  obtain ⟨walking, ran, fair, -⟩ := serves _ (rounds wheel run cascaded found)
  exact ⟨wheel, run, cascaded, found, walking, ran, fair⟩

/-- The loop uses released memory when a callback deletes its own timer or the one that follows. -/
theorem onTick_callbacks_released :
    Meets eventStep Event.Fits twinEvents start.wheel ∧
    ∃ wheel ∈ exec eventStep twinEvents start.wheel, ∃ cascaded ∈ casades wheel,
      cascaded.turn = [64, 128] ∧
      Meets actionStep Action.Fits [.del 64] cascaded ∧
      (roundStep [.del 64] (walkStart cascaded)).isNone ∧
      Meets actionStep Action.Fits [.del 128] cascaded ∧
      (exec roundStep [[.del 128], []] (walkStart cascaded)).isNone := by
  decide +kernel

end Syslib.Timer
