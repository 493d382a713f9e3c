import Syslib.Utask.Calls

namespace Syslib.Utask

open Assembly Machine Runs

theorem or_and_same (flag mask : BitVec 64) : (flag ||| mask) &&& mask = mask := by
  ext index inside
  rw [BitVec.getElem_and, BitVec.getElem_or]
  cases flag[index] <;> cases mask[index] <;> rfl

/-- The other functions of the library write only to the state of the structure. -/
theorem Fixed.setState {t : UtaskImpl} {memory : Store} (fixed : Fixed t memory) (state : Word) :
    Fixed t (memory.write .task 24 state) := by
  obtain ⟨flag, flagged⟩ := fixed.flagged
  constructor <;>
    simp [write_apart, fixed.stk, fixed.stkSize, fixed.tskFunc, fixed.magic, flagged]

theorem Parked.setState {t : UtaskImpl} {first : Entry} {memory : Store} (parked : Parked t first memory)
    (state : Word) : Parked t first (memory.write .task 24 state) := by
  constructor <;>
    simp [write_block, write_apart, parked.nextRsp, parked.resumePos, parked.callerRsp, parked.argument,
      parked.back]

theorem Framed.setState {latest : Entry} {memory : Store} (framed : Framed latest memory)
    (state : Word) : Framed latest (memory.write .task 24 state) := by
  constructor <;> simp [write_block, framed.back, framed.rbp, framed.rbx]

theorem Paused.setState {t : UtaskImpl} {pause : CallSite} {memory : Store} (paused : Paused t pause memory)
    (state : Word) : Paused t pause (memory.write .task 24 state) := by
  constructor <;>
    simp [write_block, write_apart, paused.inside, paused.yieldPos, paused.rax, paused.rsp, paused.rbp,
      paused.rbx, paused.back]

section Routines

variable {t : UtaskImpl} {memory : Store} {first latest : Entry} {pause site : CallSite} {flag : BitVec 64}

/-- A fresh task enters its function and has parked its caller. -/
theorem asmRunTask_enters (fixed : Fixed t memory) (entry : Entry) (flagged : memory .task 48 = .num flag)
    (clear : (flag &&& 1 == 0) = true) :
    ∃ m, run program 64 (entry.site.enter .asmRunTask memory (.host entry.host)) = some m ∧
      m.registers.rsp = .ptr .stack (t.stkTop - 40) ∧ m.next = .outside t.tskFunc ∧
      m.memory .task 24 = memory .task 24 ∧ Fixed t m.memory ∧ Parked t entry m.memory ∧
      Framed entry m.memory := by
  have leaves := run_leaves (m := entry.site.enter .asmRunTask memory (.host entry.host)) rfl rfl rfl
    (by simp [CallSite.enter, write_block, fixed.stk]) t.stkSize
    (by simp [CallSite.enter, write_block, fixed.stkSize])
  have parks := leaves.trans (run_parks rfl rfl rfl)
  have tests := parks.trans (run_tests rfl rfl (by simp) flag
    (by simp [CallSite.enter, write_block, write_apart, flagged]))
  rw [clear, if_pos rfl] at tests
  have calls := tests.trans (run_calls rfl rfl rfl rfl (.outside t.tskFunc)
    (by simp [CallSite.enter, write_block, write_apart, fixed.tskFunc]))
  refine ⟨_, calls.returns (by decide) rfl, ?_, rfl, ?_, ?_, ?_, ?_⟩
  · simp [Int.sub_sub, UtaskImpl.stkTop]
  · simp [CallSite.enter, write_block, write_apart]
  · constructor <;>
      simp [CallSite.enter, write_block, write_apart, fixed.stk, fixed.stkSize, fixed.tskFunc, fixed.magic,
        flagged]
  · constructor <;>
      simp (disch := first | (simp; done) | omega) [CallSite.enter, write_block, write_apart,
        UtaskImpl.stkTop, Int.sub_sub]
  · constructor <;>
      simp (disch := first | (simp; done) | omega) [CallSite.enter, write_block, write_apart,
        Int.sub_sub]

/-- From its label on, the routine finds the caller through the stack of the task. -/
theorem asmRunTask_over {start m : Cpu} {count : Nat} (earlier : Leads program count start m)
    (short : count ≤ 54) (here : m.next = .inside .asmRunTask 28)
    (low : m.registers.rsp = .ptr .stack (t.stkTop - 32)) (arg : m.registers.rdi = .ptr .task 0)
    (callerRsp : m.memory .stack (t.stkTop - 24) = .ptr (.host latest.host) (latest.site.top - 32))
    (framed : Framed latest m.memory) :
    ∃ after, run program 64 start = some after ∧ landing after = latest.site.point (.host latest.host) ∧
      after.memory = m.memory.write .task 48 ((m.memory .task 48).and (-2)) := by
  have parked : t.stkTop - 32 + 8 = t.stkTop - 24 := by omega
  have saved : latest.site.top - 32 + 24 = latest.site.top - 8 := by omega
  have switches := earlier.trans (run_switches here low arg (latest.site.top - 32) (parked ▸ callerRsp))
  have returns := switches.trans (run_returns rfl rfl (.outside latest.site.back)
    (by rw [saved]; simp [write_block, framed.back]))
  refine ⟨_, returns.returns (by omega) rfl, ?_, rfl⟩
  simp [landing, CallSite.point, write_block, framed.rbp, framed.rbx, sub_add]

/-- A set first bit sends the caller back at once. -/
theorem asmRunTask_skips (fixed : Fixed t memory) (entry : Entry) (flagged : memory .task 48 = .num flag)
    (set : (flag &&& 1 == 0) = false) :
    ∃ m, run program 64 (entry.site.enter .asmRunTask memory (.host entry.host)) = some m ∧
      landing m = entry.site.point (.host entry.host) ∧
      m.memory .task 24 = memory .task 24 ∧ Fixed t m.memory := by
  have leaves := run_leaves (m := entry.site.enter .asmRunTask memory (.host entry.host)) rfl rfl rfl
    (by simp [CallSite.enter, write_block, fixed.stk]) t.stkSize
    (by simp [CallSite.enter, write_block, fixed.stkSize])
  have parks := leaves.trans (run_parks rfl rfl rfl)
  have tests := parks.trans (run_tests rfl rfl (by simp) flag
    (by simp [CallSite.enter, write_block, write_apart, flagged]))
  rw [set, if_neg Bool.false_ne_true] at tests
  obtain ⟨after, ran, lands, final⟩ := @asmRunTask_over t entry _ _ _ tests (by decide) rfl rfl rfl
    (by simp (disch := omega) [write_apart, UtaskImpl.stkTop, Int.sub_sub])
    (by
      constructor <;>
        simp (disch := first | (simp; done) | omega) [CallSite.enter, write_block, write_apart,
          Int.sub_sub])
  refine ⟨after, ran, lands, ?_, ?_⟩
  · rw [final]
    simp [CallSite.enter, write_block, write_apart]
  · rw [final]
    constructor <;>
      simp [CallSite.enter, write_block, write_apart, fixed.stk, fixed.stkSize, fixed.tskFunc, fixed.magic,
        flagged, Val.and]

/-- The task saves its place and goes to the latest entry. -/
theorem asmYieldTask_leaves (fixed : Fixed t memory) (parked : Parked t first memory)
    (framed : Framed latest memory) (same : first.SamePlace latest) (inside : site.top ≤ t.stkTop - 40)
    (flagged : memory .task 48 = .num flag) (clear : (flag &&& 2 == 0) = true) :
    ∃ m, run program 64 (site.enter .asmYieldTask memory .stack) = some m ∧
      landing m = latest.site.point (.host latest.host) ∧ m.memory .task 24 = memory .task 24 ∧
      Fixed t m.memory ∧ Parked t first m.memory ∧ Paused t site m.memory := by
  have saves := yield_saves (m := site.enter .asmYieldTask memory .stack) rfl rfl rfl flag
    (by simp [CallSite.enter, write_block, flagged])
  rw [clear, if_pos rfl] at saves
  have leaves := saves.trans (yield_leaves rfl rfl rfl (.inside .asmRunTask 17)
    (by simp [CallSite.enter, write_block, write_apart, parked.resumePos]))
  have tests := leaves.trans (@run_tests _ (t.stkTop - 32) rfl
    (by simp [CallSite.enter, write_block, write_apart, parked.nextRsp])
    (by
      simp (disch := first | (simp; done) | omega) [CallSite.enter, write_block, write_apart,
        parked.argument])
    (flag ||| 1) (by simp [CallSite.enter, write_block, write_apart, flagged, Val.or]))
  rw [or_and_same, if_neg (by decide)] at tests
  obtain ⟨after, ran, lands, final⟩ := @asmRunTask_over t latest _ _ _ tests (by decide) rfl
    (by simp [CallSite.enter, write_block, write_apart, parked.nextRsp]) rfl
    (by
      simp (disch := first | (simp; done) | omega) [CallSite.enter, write_block, write_apart,
        parked.callerRsp, same.1, same.2])
    (by constructor <;> simp [CallSite.enter, write_block, framed.back, framed.rbp, framed.rbx])
  refine ⟨after, ran, lands, ?_, ?_, ?_, ?_⟩ <;> rw [final]
  · simp [CallSite.enter, write_block, write_apart]
  · constructor <;>
      simp [CallSite.enter, write_block, write_apart, fixed.stk, fixed.stkSize, fixed.tskFunc, fixed.magic,
        flagged, Val.and, Val.or]
  · constructor <;>
      simp (disch := first | (simp; done) | omega) [CallSite.enter, write_block, write_apart,
        parked.nextRsp, parked.resumePos, parked.callerRsp, parked.argument, parked.back]
  · refine ⟨inside, ?_, ?_, ?_, ?_, ?_, ?_⟩ <;>
      simp (disch := first | (simp; done) | omega) [CallSite.enter, write_block, write_apart, Int.sub_sub]

/-- The task goes on after its latest yield, and the new entry is on its stack. -/
theorem asmResumeTask_continues (fixed : Fixed t memory) (parked : Parked t first memory)
    (paused : Paused t pause memory) (entry : Entry) (flagged : memory .task 48 = .num flag)
    (clear : (flag &&& 4 == 0) = true) :
    ∃ m, run program 64 (entry.site.enter .asmResumeTask memory (.host entry.host)) = some m ∧
      landing m = pause.point .stack ∧ m.memory .task 24 = memory .task 24 ∧
      Fixed t m.memory ∧ Parked t first m.memory ∧ Framed entry m.memory := by
  have tests := resume_tests (m := entry.site.enter .asmResumeTask memory (.host entry.host)) rfl rfl rfl
    flag (by simp [CallSite.enter, write_block, flagged])
  rw [clear, if_pos rfl] at tests
  have enters := tests.trans (resume_enters rfl rfl rfl rfl (.inside .asmYieldTask 11)
    (by simp [CallSite.enter, write_block, paused.yieldPos]))
  have again := enters.trans (yield_tests rfl
    (by simp [CallSite.enter, write_block, paused.rax]) (flag ||| 2)
    (by simp [CallSite.enter, write_block, flagged, Val.or]))
  rw [or_and_same, if_neg (by decide)] at again
  have lower : pause.top - 16 + 8 = pause.top - 8 := by omega
  have continues := again.trans (@yield_continues _ (pause.top - 16) rfl
    (by simp [CallSite.enter, write_block, paused.rsp])
    (by simp [CallSite.enter, write_block, paused.rax]) rfl (.outside pause.back)
    (by rw [lower]; simp [CallSite.enter, write_block, paused.back]))
  refine ⟨_, continues.returns (by decide) rfl, ?_, ?_, ?_, ?_, ?_⟩
  · simp [landing, CallSite.point, CallSite.enter, write_block, write_apart, paused.rbp, paused.rbx]
  · simp [CallSite.enter, write_block, write_apart]
  · constructor <;>
      simp [CallSite.enter, write_block, write_apart, fixed.stk, fixed.stkSize, fixed.tskFunc, fixed.magic,
        flagged, Val.and, Val.or]
  · constructor <;>
      simp [CallSite.enter, write_block, write_apart, parked.nextRsp, parked.resumePos, parked.callerRsp,
        parked.argument, parked.back]
  · constructor <;>
      simp (disch := first | (simp; done) | omega) [CallSite.enter, write_block, write_apart, Int.sub_sub]

/-- A task function that returns goes to the latest entry. -/
theorem taskReturn_leaves (fixed : Fixed t memory) (parked : Parked t first memory)
    (framed : Framed latest memory) (same : first.SamePlace latest) (registers : Registers Block Routine)
    (zero : Bool) :
    ∃ next, taskReturn t memory registers zero =
        some (.lands (latest.site.point (.host latest.host)), next) ∧
      next .task 24 = memory .task 24 ∧ Fixed t next := by
  obtain ⟨flag, flagged⟩ := fixed.flagged
  let returned : Cpu :=
    ⟨{ registers with rsp := .ptr .stack (t.stkTop - 32) }, memory, zero, .inside .asmRunTask 26⟩
  have ends := run_ends (m := returned) rfl rfl parked.argument
  obtain ⟨after, ran, lands, final⟩ := @asmRunTask_over t latest _ _ _ ends (by decide) rfl rfl rfl
    (by simp [returned, write_block, parked.callerRsp, same.1, same.2])
    (by constructor <;> simp [returned, write_block, framed.back, framed.rbp, framed.rbx])
  refine ⟨after.memory, ?_, ?_, ?_⟩
  · rw [taskReturn, parked.back]
    simp only [Val.place, Option.bind_eq_bind, Option.bind_some]
    rw [← lands]
    exact congrArg (Option.bind · _) ran
  · rw [final]
    simp [returned, write_apart]
  · rw [final]
    constructor <;>
      simp [returned, write_apart, fixed.stk, fixed.stkSize, fixed.tskFunc, fixed.magic, flagged, Val.and,
        Val.or]

end Routines

theorem utskCall_performed {routine : Routine} {wanted state : BitVec 64} {memory : Store} {block : Block}
    {site : CallSite} {m : Cpu} (magic : memory .task 208 = .num utaskMagicNum)
    (found : memory .task 24 = .num wanted)
    (ran : run program 64 (site.enter routine (memory.write .task 24 (.num state)) block) = some m) :
    utskCall routine wanted state memory block site = some (.lands (landing m), m.memory) := by
  rw [utskCall, if_neg (by simp [magic, found]), ran]
  rfl

theorem utskCall_refused {routine : Routine} {wanted state found : BitVec 64} {memory : Store} {block : Block}
    {site : CallSite} (same : memory .task 24 = .num found) (other : found ≠ wanted) :
    utskCall routine wanted state memory block site = some (.refused, memory) := by
  rw [utskCall, if_pos]
  right
  rw [same]
  exact fun equal => other (Val.num.inj equal)

section Step

variable {t : UtaskImpl} {memory : Store} {phase : Phase}

theorem utskRun_right (consistent : World.Consistent t ⟨memory, phase⟩) (writes : List Write)
    (entry : Entry) :
    ∃ answer next, utskRun memory entry.host entry.site = some (answer, next) ∧
      (UtaskEvent.run writes entry).Right t phase answer ∧
      World.Consistent t ⟨next, phase.afterRun entry answer⟩ := by
  have whole := consistent
  obtain ⟨fixed, history⟩ := consistent
  cases phase with
  | fresh =>
      have running := fixed.setState (.num utsRunning)
      obtain ⟨flag, flagged⟩ := running.flagged
      cases bit : flag &&& 1 == 0 with
      | true =>
          obtain ⟨m, ran, rsp, place, state, fixed', parked, framed⟩ :=
            asmRunTask_enters running entry flagged bit
          have lands : landing m = ⟨.outside t.tskFunc, .ptr .stack (t.stkTop - 40), m.registers.rbp,
              m.registers.rbx⟩ := by
            rw [landing, place, rsp]
          refine ⟨_, _, utskCall_performed fixed.magic history ran, .inl ⟨place, rsp⟩, ?_⟩
          rw [lands]
          exact ⟨fixed', state.trans write_same, parked, framed⟩
      | false =>
          obtain ⟨m, ran, lands, state, fixed'⟩ := asmRunTask_skips running entry flagged bit
          refine ⟨_, _, utskCall_performed fixed.magic history ran, .inr lands, ?_⟩
          rw [lands]
          exact ⟨fixed', state.trans write_same⟩
  | running first latest => exact ⟨_, _, utskCall_refused history.1 (by decide), rfl, whole⟩
  | waiting first latest pause => exact ⟨_, _, utskCall_refused history.1 (by decide), rfl, whole⟩
  | finished => exact ⟨_, _, utskCall_refused history (by decide), rfl, whole⟩

theorem utskResume_right (consistent : World.Consistent t ⟨memory, phase⟩) (writes : List Write)
    (entry : Entry) (allowed : (UtaskEvent.resume writes entry).Allowed ⟨memory, phase⟩) :
    ∃ answer next, utskResume memory entry.host entry.site = some (answer, next) ∧
      (UtaskEvent.resume writes entry).Right t phase answer ∧
      World.Consistent t ⟨next, phase.afterResume entry answer⟩ := by
  have whole := consistent
  obtain ⟨fixed, history⟩ := consistent
  cases phase with
  | waiting first latest pause =>
      obtain ⟨waits, parked, paused⟩ := history
      obtain ⟨flag, flagged⟩ := fixed.flagged
      have clear : flag &&& 4 = 0 :=
        Val.num.inj ((congrArg (Val.and · 4) flagged).symm.trans allowed)
      obtain ⟨m, ran, lands, state, fixed', parked', framed⟩ :=
        asmResumeTask_continues (fixed.setState (.num utsRunning)) (parked.setState _) (paused.setState _)
          entry ((write_apart (by decide)).trans flagged) (beq_iff_eq.mpr clear)
      exact ⟨_, _, utskCall_performed fixed.magic waits ran, congrArg _ lands, fixed',
        state.trans write_same, parked', framed⟩
  | fresh => exact ⟨_, _, utskCall_refused history (by decide), rfl, whole⟩
  | running first latest => exact ⟨_, _, utskCall_refused history.1 (by decide), rfl, whole⟩
  | finished => exact ⟨_, _, utskCall_refused history (by decide), rfl, whole⟩

theorem utskYield_right {first latest : Entry} (consistent : World.Consistent t ⟨memory, .running first latest⟩)
    (writes : List Write) (site : CallSite) (inside : site.top ≤ t.stkTop - 40)
    (allowed : (UtaskEvent.yield writes site).Allowed ⟨memory, .running first latest⟩) :
    ∃ answer next, utskYield memory site = some (answer, next) ∧
      (UtaskEvent.yield writes site).Right t (.running first latest) answer ∧
      World.Consistent t ⟨next, (Phase.running first latest).afterYield site answer⟩ := by
  obtain ⟨fixed, runs, parked, framed⟩ := consistent
  obtain ⟨flag, flagged⟩ := fixed.flagged
  obtain ⟨same, bit⟩ := allowed
  have clear : flag &&& 2 = 0 := Val.num.inj ((congrArg (Val.and · 2) flagged).symm.trans bit)
  obtain ⟨m, ran, lands, state, fixed', parked', paused⟩ :=
    asmYieldTask_leaves (fixed.setState (.num utsWaiting)) (parked.setState _) (framed.setState _) same
      inside ((write_apart (by decide)).trans flagged) (beq_iff_eq.mpr clear)
  exact ⟨_, _, utskCall_performed fixed.magic runs ran, congrArg _ lands, fixed', state.trans write_same,
    parked', paused⟩

theorem Phase.exists_running (runs : phase.isRunning) : ∃ first latest, phase = .running first latest := by
  cases phase with
  | running first latest => exact ⟨first, latest, rfl⟩
  | fresh | waiting _ _ _ | finished => exact absurd runs Bool.false_ne_true

/-- One event goes where it should, and the memory fits the history again. -/
theorem utaskEvent_right {w : World} (consistent : w.Consistent t) (event : UtaskEvent)
    (real : event.Real t w.phase) (allowed : event.Allowed w) :
    ∃ next answer, utaskEvent t event w = some (next, answer) ∧ event.Right t w.phase answer ∧
      next.Consistent t := by
  cases event with
  | run writes entry =>
      obtain ⟨answer, next, ran, right, after⟩ := utskRun_right (consistent.writes real) writes entry
      exact ⟨_, answer, by simp [utaskEvent, ran], right, after⟩
  | resume writes entry =>
      have untouched := writeAll_task (fun w member => (real w member).1) w.memory 48
      have allowed' : (UtaskEvent.resume writes entry).Allowed ⟨writeAll w.memory writes, w.phase⟩ := by
        simpa only [UtaskEvent.Allowed, untouched] using allowed
      obtain ⟨answer, next, ran, right, after⟩ :=
        utskResume_right (consistent.writes real) writes entry allowed'
      exact ⟨_, answer, by simp [utaskEvent, ran], right, after⟩
  | yield writes site =>
      obtain ⟨honest, inside, runs⟩ := real
      have untouched := writeAll_task (fun w member => (honest w member).1) w.memory 48
      obtain ⟨memory, phase⟩ := w
      obtain ⟨first, latest, rfl⟩ := Phase.exists_running runs
      have allowed' : (UtaskEvent.yield writes site).Allowed
          ⟨writeAll memory writes, .running first latest⟩ := by
        simpa only [UtaskEvent.Allowed, untouched] using allowed
      obtain ⟨answer, next, ran, right, after⟩ :=
        utskYield_right (consistent.writes honest) writes site inside allowed'
      exact ⟨_, answer, by simp [utaskEvent, ran], right, after⟩
  | finish writes registers zero =>
      obtain ⟨honest, runs⟩ := real
      obtain ⟨memory, phase⟩ := w
      obtain ⟨first, latest, rfl⟩ := Phase.exists_running runs
      obtain ⟨fixed, runs, parked, framed⟩ := consistent.writes honest
      obtain ⟨next, ran, state, fixed'⟩ := taskReturn_leaves fixed parked framed allowed registers zero
      exact ⟨⟨next, .finished⟩, _, by simp [utaskEvent, ran], rfl, fixed', state.trans runs⟩

theorem utaskEvents_right {w : World} (consistent : w.Consistent t) (events : List UtaskEvent)
    (meets : Meets (utaskStep t) (fun event w => event.Real t w.phase ∧ event.Allowed w) events w) :
    Lawful t events w := by
  induction events generalizing w with
  | nil => trivial
  | cons event rest ih =>
      obtain ⟨⟨real, allowed⟩, later⟩ := meets
      obtain ⟨next, answer, ran, right, after⟩ := utaskEvent_right consistent event real allowed
      exact ⟨next, answer, ran, right, ih after (later next (by rw [utaskStep, ran]; rfl))⟩

end Step

theorem consistent_utskCreate (t : UtaskImpl) {memory : Store} {flag : BitVec 64}
    (flagged : memory .task 48 = .num flag) :
    World.Consistent t ⟨utskCreate memory t, .fresh⟩ := by
  refine ⟨?_, ?_⟩
  · constructor <;> simp [utskCreate, write_apart, flagged]
  · simp [utskCreate, write_apart]

/-- Every yield and every return goes to the latest entry, and every resume to the latest yield. -/
theorem utaskEvents_lawful (t : UtaskImpl) (memory : Store) (flag : BitVec 64)
    (flagged : memory .task 48 = .num flag) (events : List UtaskEvent)
    (meets : Meets (utaskStep t) (fun event w => event.Real t w.phase ∧ event.Allowed w) events
      ⟨utskCreate memory t, .fresh⟩) :
    Lawful t events ⟨utskCreate memory t, .fresh⟩ :=
  utaskEvents_right (consistent_utskCreate t flagged) events meets

def zeroRegisters : Registers Block Routine :=
  ⟨.num 0, .num 0, .num 0, .num 0, .num 0, .num 0, .num 0, .num 0, .num 0⟩

/-- A call site with a frame of its own. -/
def siteAt (top : Int) (back : Nat) (frame : Word) : CallSite :=
  ⟨top, back, { zeroRegisters with rbp := frame, rbx := .num back }, false⟩

def smallTask : UtaskImpl := ⟨4096, 7⟩

def zeroMemory : Store := fun _ _ => .num 0

/-- The task yields at two depths, and both resumes are at the place of the run. -/
def steadyEvents : List UtaskEvent :=
  [.run [] ⟨0, siteAt 1000 1 (.ptr (.host 0) 1040)⟩,
    .yield [⟨.stack, 3000, .num 5⟩] (siteAt 4000 2 (.ptr .stack 4040)),
    .resume [⟨.host 0, 992, .num 6⟩] ⟨0, siteAt 1000 3 (.ptr (.host 0) 1200)⟩,
    .yield [] (siteAt 3000 4 (.ptr .stack 3100)),
    .resume [] ⟨0, siteAt 1000 5 (.ptr (.host 0) 1100)⟩,
    .finish [] zeroRegisters true]

theorem utaskEvents_lawful_steady : Lawful smallTask steadyEvents ⟨utskCreate zeroMemory smallTask, .fresh⟩ :=
  utaskEvents_lawful smallTask zeroMemory 0 rfl steadyEvents (by decide +kernel)

/-- A callback resumes the task at a lower depth, and the next yield returns from the run again. -/
def deepEvents : List UtaskEvent :=
  [.run [] ⟨0, siteAt 1000 1 (.ptr (.host 0) 1040)⟩,
    .yield [] (siteAt 4000 2 (.ptr .stack 4040)),
    .resume [] ⟨0, siteAt 800 3 (.ptr (.host 0) 840)⟩,
    .yield [] (siteAt 4000 4 (.ptr .stack 4040))]

theorem utaskEvents_stale :
    Meets (utaskStep smallTask) (fun event w => event.Real smallTask w.phase) deepEvents
        ⟨utskCreate zeroMemory smallTask, .fresh⟩ ∧
      ¬ Lawful smallTask deepEvents ⟨utskCreate zeroMemory smallTask, .fresh⟩ := by
  decide +kernel

end Syslib.Utask
