import Syslib.Library.IntrusiveLists

namespace Syslib.Timer

open IntrusiveLists

/-- These are the fields of `struct timer_node` besides its list links. -/
structure TimerNode where
  runOnce : Int
  runTick : Nat
  delayTick : Nat
  callbackFunc : Nat
  funcParam : Nat
  deriving DecidableEq, Repr

/-- A slot names one list of the wheel: `_tv_set0[j]` or `_tv_set[i]._list[j]`. -/
inductive Slot where
  | tvSet0 (index : Nat)
  | tvSet (level index : Nat)
  deriving DecidableEq, Repr

/-- This is `struct timer_wheel` with the timer nodes that are allocated.
    The orphans are nodes whose links still lead into lists that `init_timer` has made new. -/
structure TimerWheel where
  currentTick : Nat
  lists : Slot → List Nat
  nodes : Nat → Option TimerNode
  orphans : List Nat

/-- A callback gets the handle of its timer and its parameter. -/
structure Invocation where
  callbackFunc : Nat
  handle : Nat
  funcParam : Nat
  deriving DecidableEq, Repr

/-- One step of the index at this level covers `1 << TV_SET_SHIFT_BITS(level)` ticks. -/
def tvSetSpan (level : Nat) : Nat := 2 ^ (8 + level * 6)

/-- The macros `TV_SET_MASK_IDX` and `TV_SET_SHIFT_BITS` select the six bits of this level. -/
def tvSetIdx (level tick : Nat) : Nat := tick / tvSetSpan level % 64

/-- The search runs over the levels below the bound from the top, and it ends at a nonzero index. -/
def tvSetSlot (diffTick currentTick : Nat) : Nat → Option Slot
  | 0 => none
  | level + 1 =>
      let idx := tvSetIdx level diffTick
      if 0 < idx then some (.tvSet level ((idx + tvSetIdx level currentTick) % 64))
      else tvSetSlot diffTick currentTick level

/-- A tick difference is a `long` that the comparison with `TV_SET0_SIZE` reads as unsigned. -/
def diffTicks (runTick currentTick : Nat) : Nat := (runTick + 2 ^ 64 - currentTick) % 2 ^ 64

def timerSlot (runTick currentTick : Nat) : Option Slot :=
  let diffTick := diffTicks runTick currentTick
  if diffTick < 256 then some (.tvSet0 (diffTick % 256)) else tvSetSlot diffTick currentTick 4

namespace TimerWheel

/-- A difference that has no bit in any level links the node nowhere. -/
def link (wheel : TimerWheel) (tn : Nat) : Option Slot → TimerWheel
  | none => wheel
  | some slot => { wheel with lists := pushBack wheel.lists slot tn }

def lstRemoveNode (wheel : TimerWheel) (tn : Nat) : TimerWheel :=
  { wheel with lists := removeNode wheel.lists tn }

def write (wheel : TimerWheel) (tn : Nat) (node : Option TimerNode) : TimerWheel :=
  { wheel with nodes := Function.update wheel.nodes tn node }

end TimerWheel

/-- This is `_add_timer`; it has no result for a node whose memory was given back. -/
def addTimerNode (wheel : TimerWheel) (tn : Nat) : Option TimerWheel := do
  let node ← wheel.nodes tn
  some (wheel.link tn (timerSlot node.runTick wheel.currentTick))

/-- The allocator answers with the address of the new node, or with null. -/
def addTimer (wheel : TimerWheel) (delayTick callbackFunc : Nat) (runOnce : Int)
    (param answer : Nat) : Option (TimerWheel × Nat) :=
  if callbackFunc = 0 ∨ answer = 0 then some (wheel, 0)
  else
    let node : TimerNode :=
      { runOnce, runTick := (wheel.currentTick + delayTick) % 2 ^ 64, delayTick, callbackFunc,
        funcParam := param }
    (addTimerNode (wheel.write answer (some node)) answer).map fun next => (next, answer)

/-- This is `_del_timer`. -/
def delTimerNode (wheel : TimerWheel) (tn : Nat) : TimerWheel :=
  (wheel.lstRemoveNode tn).write tn none

/-- The cache refuses a node that was given back before, and such a node is in no list.
    The model has no result for an orphan, which writes its old links into the new lists. -/
def delTimer (wheel : TimerWheel) (theTimer : Nat) : Option TimerWheel :=
  if (wheel.nodes theTimer).isNone then some wheel
  else if theTimer ∈ wheel.orphans then none
  else some (delTimerNode wheel theTimer)

/-- Both cascades move every node of one list to the place that its run tick now asks for. -/
def casadeList (level : Nat) (wheel : TimerWheel) : Option TimerWheel :=
  let slot := Slot.tvSet level (tvSetIdx level wheel.currentTick)
  -- a walk that meets more nodes than the list held at first never ends
  walk (fun wheel => wheel.lists slot)
    (fun curNode wheel => addTimerNode (wheel.lstRemoveNode curNode) curNode)
    ((wheel.lists slot).length + 1) (wheel.lists slot).head? wheel

def casade0 (wheel : TimerWheel) : Option TimerWheel := casadeList 0 wheel

def casade (i : Nat) (wheel : TimerWheel) : Option TimerWheel := casadeList (i + 1) wheel

/-- The guard of `__casade(i)` compares the tick with `TV_SET_MASK(i + 1)` and `TV_SET_MASK(i)`. -/
def casadeDue (i tick : Nat) : Prop := tick % tvSetSpan (i + 2) ≠ 0 ∧ tick % tvSetSpan (i + 1) = 0

instance (i tick : Nat) : Decidable (casadeDue i tick) := inferInstanceAs (Decidable (_ ∧ _))

def casadeIf (guard : Prop) [Decidable guard] (move : TimerWheel → Option TimerWheel)
    (wheel : TimerWheel) : Option TimerWheel :=
  if guard then move wheel else some wheel

/-- The cascades bring the timers of the next ticks down to `_tv_set0`. -/
def casades (wheel : TimerWheel) : Option TimerWheel := do
  let tick := wheel.currentTick
  let wheel ← casadeIf (0 < tick ∧ tick % 256 = 0) casade0 wheel
  let wheel ← casadeIf (casadeDue 0 tick) (casade 0) wheel
  let wheel ← casadeIf (casadeDue 1 tick) (casade 1) wheel
  casadeIf (casadeDue 2 tick) (casade 2) wheel

/-- The loop of `on_tick` invokes the callback, and then it drops or reloads the timer. -/
def runTimer (tn : Nat) (state : TimerWheel × List Invocation) :
    Option (TimerWheel × List Invocation) := do
  let (wheel, invoked) := state
  let node ← wheel.nodes tn
  let invoked := invoked ++ [⟨node.callbackFunc, tn, node.funcParam⟩]
  if node.runOnce ≠ 0 then some (delTimerNode wheel tn, invoked)
  else
    let runTick := (wheel.currentTick + node.delayTick) % 2 ^ 64
    let wheel ← addTimerNode
      ((wheel.lstRemoveNode tn).write tn (some { node with runTick })) tn
    some (wheel, invoked)

/-- The result carries the callbacks in the order of their invocation. -/
def onTick (wheel : TimerWheel) : Option (TimerWheel × List Invocation) := do
  let wheel ← casades wheel
  let slot := Slot.tvSet0 (wheel.currentTick % 256)
  let (wheel, invoked) ← walk (fun state => state.1.lists slot) runTimer
    ((wheel.lists slot).length + 1) (wheel.lists slot).head? (wheel, [])
  some ({ wheel with currentTick := (wheel.currentTick + 1) % 2 ^ 64 }, invoked)

/-- The lists `_tv_set0` and `_tv_set`. -/
def tvSlots : List Slot :=
  (List.range 256).map .tvSet0 ++
    (List.range 4).flatMap fun level => (List.range 64).map (.tvSet level)

/-- The function answers `-1` when the node zone cannot be restored; it looks at no timer. -/
def initTimer (wheel : TimerWheel) (restored : Bool) : TimerWheel × Int :=
  if restored then
    ({ wheel with
        currentTick := 0
        lists := fun _ => []
        orphans := wheel.orphans ++ tvSlots.flatMap wheel.lists }, 0)
  else (wheel, -1)

inductive Call where
  | initTimer (restored : Bool)
  | addTimer (delayTick callbackFunc : Nat) (runOnce : Int) (param answer : Nat)
  | delTimer (theTimer : Nat)
  | onTick
  deriving DecidableEq, Repr

/-- The trace keeps the callbacks that the last call invoked. -/
structure Trace where
  wheel : TimerWheel
  invoked : List Invocation

def callStep (call : Call) (trace : Trace) : Option Trace :=
  match call with
  | .initTimer restored => some ⟨(initTimer trace.wheel restored).1, []⟩
  | .addTimer delayTick callbackFunc runOnce param answer => do
      let (wheel, _) ← addTimer trace.wheel delayTick callbackFunc runOnce param answer
      some ⟨wheel, []⟩
  | .delTimer theTimer => do some ⟨← delTimer trace.wheel theTimer, []⟩
  | .onTick => do
      let (wheel, invoked) ← onTick trace.wheel
      some ⟨wheel, invoked⟩

/-- This is the wheel after the first `init_timer`. -/
def start : Trace := ⟨⟨0, fun _ => [], fun _ => none, []⟩, []⟩

end Syslib.Timer
