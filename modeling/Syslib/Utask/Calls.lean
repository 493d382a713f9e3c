import Syslib.Library.Runs
import Syslib.Utask.Switch

namespace Syslib.Utask

open Assembly Machine Runs

def utaskMagicNum : BitVec 64 := 0x1234567887654321

def utsInited : BitVec 64 := 1

def utsWaiting : BitVec 64 := 2

def utsRunning : BitVec 64 := 3

/-- `utsk_create` stores the size of the stack and the function of the task. -/
structure UtaskImpl where
  stkSize : BitVec 64
  tskFunc : Nat
  deriving DecidableEq, Repr

def UtaskImpl.stkTop (t : UtaskImpl) : Int := t.stkSize.toInt

/-- The memory of the structure comes from an object cache, and `_jmp_flag` stays as it is there. -/
def utskCreate (memory : Store) (t : UtaskImpl) : Store :=
  ((((memory.write .task 8 (.num t.stkSize)).write .task 16 (.code (.outside t.tskFunc))).write
    .task 208 (.num utaskMagicNum)).write .task 24 (.num utsInited)).write .task 0 (.ptr .stack 0)

/-- Compiled code calls the assembly routine, and `top` is its stack pointer there. -/
structure CallSite where
  top : Int
  back : Nat
  registers : Registers Block Routine
  zero : Bool
  deriving DecidableEq, Repr

/-- The call pushes the return address. -/
def CallSite.enter (site : CallSite) (routine : Routine) (memory : Store) (block : Block) : Cpu where
  registers := { site.registers with rdi := .ptr .task 0, rsp := .ptr block (site.top - 8) }
  memory := memory.write block (site.top - 8) (.code (.outside site.back))
  zero := site.zero
  next := .inside routine 0

/-- These parts of the machine decide where the control is. -/
structure Landing where
  place : Place Routine
  rsp : Word
  rbp : Word
  rbx : Word
  deriving DecidableEq, Repr

def landing (m : Cpu) : Landing :=
  ⟨m.next, m.registers.rsp, m.registers.rbp, m.registers.rbx⟩

/-- A call that returns as it should lands here. -/
def CallSite.point (site : CallSite) (block : Block) : Landing :=
  ⟨.outside site.back, .ptr block site.top, site.registers.rbp, site.registers.rbx⟩

inductive Answer where
  | refused
  | lands (landing : Landing)
  deriving DecidableEq, Repr

/-- The three functions check the magic number and the state, and no path has 64 instructions. -/
def utskCall (routine : Routine) (wanted state : BitVec 64) (memory : Store) (block : Block)
    (site : CallSite) : Option (Answer × Store) :=
  if memory .task 208 ≠ .num utaskMagicNum ∨ memory .task 24 ≠ .num wanted then some (.refused, memory)
  else do
    let m ← run program 64 (site.enter routine (memory.write .task 24 (.num state)) block)
    some (.lands (landing m), m.memory)

def utskRun (memory : Store) (host : Nat) (site : CallSite) : Option (Answer × Store) :=
  utskCall .asmRunTask utsInited utsRunning memory (.host host) site

def utskYield (memory : Store) (site : CallSite) : Option (Answer × Store) :=
  utskCall .asmYieldTask utsRunning utsWaiting memory .stack site

def utskResume (memory : Store) (host : Nat) (site : CallSite) : Option (Answer × Store) :=
  utskCall .asmResumeTask utsWaiting utsRunning memory (.host host) site

/-- The task function pops its return address from the stack of the task. -/
def taskReturn (t : UtaskImpl) (memory : Store) (registers : Registers Block Routine) (zero : Bool) :
    Option (Answer × Store) := do
  let place ← (memory .stack (t.stkTop - 40)).place
  let m ← run program 64
    ⟨{ registers with rsp := .ptr .stack (t.stkTop - 32) }, memory, zero, place⟩
  some (.lands (landing m), m.memory)

/-- A host calls the task from one of the stacks. -/
structure Entry where
  host : Nat
  site : CallSite
  deriving DecidableEq, Repr

/-- The history of the task has its first entry, its latest entry and its latest yield. -/
inductive Phase where
  | fresh
  | running (first latest : Entry)
  | waiting (first latest : Entry) (pause : CallSite)
  | finished
  deriving DecidableEq, Repr

structure World where
  memory : Store
  phase : Phase

/-- Before each call other code has written to its own words. -/
structure Write where
  block : Block
  offset : Int
  word : Word
  deriving DecidableEq, Repr

def writeAll (memory : Store) : List Write → Store
  | [] => memory
  | w :: rest => writeAll (memory.write w.block w.offset w.word) rest

inductive UtaskEvent where
  | run (writes : List Write) (entry : Entry)
  | resume (writes : List Write) (entry : Entry)
  | yield (writes : List Write) (site : CallSite)
  | finish (writes : List Write) (registers : Registers Block Routine) (zero : Bool)
  deriving DecidableEq, Repr

/-- The task has the control when the stack pointer is on its stack. -/
def Phase.afterRun (phase : Phase) (entry : Entry) : Answer → Phase
  | .refused => phase
  | .lands ⟨_, .ptr .stack _, _, _⟩ => .running entry entry
  | .lands _ => .finished

def Phase.afterResume (phase : Phase) (entry : Entry) : Answer → Phase
  | .refused => phase
  | .lands _ =>
      match phase with
      | .waiting first _ _ => .running first entry
      | other => other

def Phase.afterYield (phase : Phase) (site : CallSite) : Answer → Phase
  | .refused => phase
  | .lands _ =>
      match phase with
      | .running first latest => .waiting first latest site
      | other => other

def utaskEvent (t : UtaskImpl) : UtaskEvent → World → Option (World × Answer)
  | .run writes entry, w => do
      let (answer, memory) ← utskRun (writeAll w.memory writes) entry.host entry.site
      some (⟨memory, w.phase.afterRun entry answer⟩, answer)
  | .resume writes entry, w => do
      let (answer, memory) ← utskResume (writeAll w.memory writes) entry.host entry.site
      some (⟨memory, w.phase.afterResume entry answer⟩, answer)
  | .yield writes site, w => do
      let (answer, memory) ← utskYield (writeAll w.memory writes) site
      some (⟨memory, w.phase.afterYield site answer⟩, answer)
  | .finish writes registers zero, w => do
      let (answer, memory) ← taskReturn t (writeAll w.memory writes) registers zero
      some (⟨memory, .finished⟩, answer)

def utaskStep (t : UtaskImpl) (event : UtaskEvent) (w : World) : Option World :=
  (utaskEvent t event w).map Prod.fst

/-- A run goes to the function of the task or returns. -/
def Entry.Started (entry : Entry) (t : UtaskImpl) : Answer → Prop
  | .refused => False
  | .lands landing =>
      landing.place = .outside t.tskFunc ∧ landing.rsp = .ptr .stack (t.stkTop - 40) ∨
        landing = entry.site.point (.host entry.host)

instance Entry.decidableStarted (entry : Entry) (t : UtaskImpl) (answer : Answer) :
    Decidable (entry.Started t answer) := by
  cases answer <;> unfold Entry.Started <;> infer_instance

/-- A yield or a return goes to the latest entry, and a resume goes to the latest yield. -/
def UtaskEvent.Right (t : UtaskImpl) (phase : Phase) (answer : Answer) : UtaskEvent → Prop
  | .run _ entry =>
      match phase with
      | .fresh => entry.Started t answer
      | _ => answer = .refused
  | .resume _ _ =>
      match phase with
      | .waiting _ _ pause => answer = .lands (pause.point .stack)
      | _ => answer = .refused
  | .yield _ _ | .finish _ _ _ =>
      match phase with
      | .running _ latest => answer = .lands (latest.site.point (.host latest.host))
      | _ => False

instance UtaskEvent.decidableRight (t : UtaskImpl) (phase : Phase) (answer : Answer) (event : UtaskEvent) :
    Decidable (event.Right t phase answer) := by
  cases event <;> cases phase <;> unfold UtaskEvent.Right <;> infer_instance

/-- Every event of the sequence is performed, and its answer is right. -/
def Lawful (t : UtaskImpl) : List UtaskEvent → World → Prop
  | [], _ => True
  | event :: rest, w =>
      ∃ next answer, utaskEvent t event w = some (next, answer) ∧ event.Right t w.phase answer ∧
        Lawful t rest next

instance Lawful.decidable (t : UtaskImpl) : ∀ (events : List UtaskEvent) (w : World),
    Decidable (Lawful t events w)
  | [], _ => isTrue trivial
  | event :: rest, w =>
      match performed : utaskEvent t event w with
      | none => isFalse fun lawful => by
          obtain ⟨next, answer, ran, -⟩ := lawful
          rw [performed] at ran
          cases ran
      | some (next, answer) =>
          have := Lawful.decidable t rest next
          decidable_of_iff (event.Right t w.phase answer ∧ Lawful t rest next)
            ⟨fun lawful => ⟨next, answer, performed, lawful⟩, fun lawful => by
              obtain ⟨_, _, ran, lawful⟩ := lawful
              obtain ⟨rfl, rfl⟩ := Prod.mk.inj (Option.some.inj (performed.symm.trans ran))
              exact lawful⟩

/-- Other code may not write to these words of the two sides. -/
def Phase.guarded (t : UtaskImpl) : Phase → List (Block × Int)
  | .running _ latest =>
      [(.stack, t.stkTop - 24), (.stack, t.stkTop - 32), (.stack, t.stkTop - 40),
        (.host latest.host, latest.site.top - 8), (.host latest.host, latest.site.top - 16),
        (.host latest.host, latest.site.top - 24)]
  | .waiting _ _ pause =>
      [(.stack, t.stkTop - 24), (.stack, t.stkTop - 32), (.stack, t.stkTop - 40),
        (.stack, pause.top - 8), (.stack, pause.top - 16)]
  | _ => []

def Write.Avoids (w : Write) (word : Block × Int) : Prop :=
  w.block = word.1 → word.2 + 8 ≤ w.offset ∨ w.offset + 8 ≤ word.2

instance Write.decidableAvoids (w : Write) (word : Block × Int) : Decidable (w.Avoids word) :=
  inferInstanceAs (Decidable (_ → _))

/-- Other code leaves the task structure and the saved words alone. -/
def Honest (t : UtaskImpl) (phase : Phase) (writes : List Write) : Prop :=
  ∀ w ∈ writes, w.block ≠ .task ∧ ∀ word ∈ phase.guarded t, w.Avoids word

instance Honest.decidable (t : UtaskImpl) (phase : Phase) (writes : List Write) :
    Decidable (Honest t phase writes) :=
  inferInstanceAs (Decidable (∀ w ∈ writes, _ ∧ ∀ word ∈ phase.guarded t, w.Avoids word))

def Phase.isRunning : Phase → Bool
  | .running _ _ => true
  | _ => false

/-- Only the task function yields or returns, and a yield is below its return address. -/
def UtaskEvent.Real (t : UtaskImpl) (phase : Phase) : UtaskEvent → Prop
  | .run writes _ | .resume writes _ => Honest t phase writes
  | .yield writes site => Honest t phase writes ∧ site.top ≤ t.stkTop - 40 ∧ phase.isRunning
  | .finish writes _ _ => Honest t phase writes ∧ phase.isRunning

instance UtaskEvent.decidableReal (t : UtaskImpl) (phase : Phase) (event : UtaskEvent) :
    Decidable (event.Real t phase) := by
  cases event <;> unfold UtaskEvent.Real <;> infer_instance

def Entry.SamePlace (first latest : Entry) : Prop :=
  latest.host = first.host ∧ latest.site.top = first.site.top

instance Entry.decidableSamePlace (first latest : Entry) : Decidable (first.SamePlace latest) :=
  inferInstanceAs (Decidable (_ ∧ _))

/-- The latest entry is at the place of the first one, and the tested bit has not been set before. -/
def UtaskEvent.Allowed (w : World) : UtaskEvent → Prop
  | .run _ _ => True
  | .resume _ _ =>
      match w.phase with
      | .waiting _ _ _ => (w.memory .task 48).and 4 = .num 0
      | _ => True
  | .yield _ _ =>
      match w.phase with
      | .running first latest => first.SamePlace latest ∧ (w.memory .task 48).and 2 = .num 0
      | _ => True
  | .finish _ _ _ =>
      match w.phase with
      | .running first latest => first.SamePlace latest
      | _ => True

instance UtaskEvent.decidableAllowed (w : World) (event : UtaskEvent) : Decidable (event.Allowed w) := by
  obtain ⟨memory, phase⟩ := w
  cases event <;> cases phase <;> unfold UtaskEvent.Allowed <;> infer_instance

/-- These words of the structure never change, and the jump flag stays a number. -/
structure Fixed (t : UtaskImpl) (memory : Store) : Prop where
  stk : memory .task 0 = .ptr .stack 0
  stkSize : memory .task 8 = .num t.stkSize
  tskFunc : memory .task 16 = .code (.outside t.tskFunc)
  magic : memory .task 208 = .num utaskMagicNum
  flagged : ∃ flag, memory .task 48 = .num flag

/-- The first entry has left these words for the way back. -/
structure Parked (t : UtaskImpl) (first : Entry) (memory : Store) : Prop where
  nextRsp : memory .task 40 = .ptr .stack (t.stkTop - 32)
  resumePos : memory .task 56 = .code (.inside .asmRunTask 17)
  callerRsp : memory .stack (t.stkTop - 24) = .ptr (.host first.host) (first.site.top - 32)
  argument : memory .stack (t.stkTop - 32) = .ptr .task 0
  back : memory .stack (t.stkTop - 40) = .code (.inside .asmRunTask 26)

/-- The latest entry has its registers and its return address on its stack. -/
structure Framed (latest : Entry) (memory : Store) : Prop where
  back : memory (.host latest.host) (latest.site.top - 8) = .code (.outside latest.site.back)
  rbp : memory (.host latest.host) (latest.site.top - 16) = latest.site.registers.rbp
  rbx : memory (.host latest.host) (latest.site.top - 24) = latest.site.registers.rbx

/-- The latest yield has its place in the structure and on the stack of the task. -/
structure Paused (t : UtaskImpl) (pause : CallSite) (memory : Store) : Prop where
  inside : pause.top ≤ t.stkTop - 40
  yieldPos : memory .task 32 = .code (.inside .asmYieldTask 11)
  rax : memory .task 72 = .ptr .task 0
  rsp : memory .task 120 = .ptr .stack (pause.top - 16)
  rbp : memory .task 128 = pause.registers.rbp
  rbx : memory .stack (pause.top - 16) = pause.registers.rbx
  back : memory .stack (pause.top - 8) = .code (.outside pause.back)

/-- The words in memory fit the history. -/
def World.Consistent (t : UtaskImpl) (w : World) : Prop :=
  Fixed t w.memory ∧
    match w.phase with
    | .fresh => w.memory .task 24 = .num utsInited
    | .running first latest =>
        w.memory .task 24 = .num utsRunning ∧ Parked t first w.memory ∧ Framed latest w.memory
    | .waiting first _ pause =>
        w.memory .task 24 = .num utsWaiting ∧ Parked t first w.memory ∧ Paused t pause w.memory
    | .finished => w.memory .task 24 = .num utsRunning

theorem writeAll_task {writes : List Write} (apart : ∀ w ∈ writes, w.block ≠ .task) (memory : Store)
    (offset : Int) : writeAll memory writes .task offset = memory .task offset := by
  induction writes generalizing memory with
  | nil => rfl
  | cons w rest ih =>
      rw [writeAll, ih fun later member => apart later (List.mem_cons_of_mem _ member)]
      exact write_block (apart w List.mem_cons_self).symm

theorem writeAll_avoids {writes : List Write} {word : Block × Int} (avoids : ∀ w ∈ writes, w.Avoids word)
    (memory : Store) : writeAll memory writes word.1 word.2 = memory word.1 word.2 := by
  induction writes generalizing memory with
  | nil => rfl
  | cons w rest ih =>
      rw [writeAll, ih fun later member => avoids later (List.mem_cons_of_mem _ member)]
      by_cases same : w.block = word.1
      · rw [same]
        exact write_apart (avoids w List.mem_cons_self same)
      · exact write_block (Ne.symm same)

/-- Other code leaves the history of the task as it is. -/
theorem World.Consistent.writes {t : UtaskImpl} {w : World} (consistent : w.Consistent t)
    {writes : List Write} (honest : Honest t w.phase writes) :
    World.Consistent t ⟨writeAll w.memory writes, w.phase⟩ := by
  have task := writeAll_task (fun w member => (honest w member).1) w.memory
  have kept : ∀ word ∈ w.phase.guarded t, writeAll w.memory writes word.1 word.2 = w.memory word.1 word.2 :=
    fun word member => writeAll_avoids (fun w written => (honest w written).2 word member) w.memory
  obtain ⟨fixed, history⟩ := consistent
  have fixed' : Fixed t (writeAll w.memory writes) := by
    constructor <;> rw [task]
    exacts [fixed.stk, fixed.stkSize, fixed.tskFunc, fixed.magic, fixed.flagged]
  refine ⟨fixed', ?_⟩
  obtain ⟨memory, phase⟩ := w
  cases phase with
  | fresh => exact (task 24).trans history
  | finished => exact (task 24).trans history
  | running first latest =>
      obtain ⟨state, parked, framed⟩ := history
      simp only [Phase.guarded, List.forall_mem_cons, List.not_mem_nil] at kept
      obtain ⟨callerRsp, argument, back, hostBack, hostRbp, hostRbx, -⟩ := kept
      exact ⟨(task 24).trans state, ⟨(task 40).trans parked.nextRsp, (task 56).trans parked.resumePos,
        callerRsp.trans parked.callerRsp, argument.trans parked.argument, back.trans parked.back⟩,
        ⟨hostBack.trans framed.back, hostRbp.trans framed.rbp, hostRbx.trans framed.rbx⟩⟩
  | waiting first latest pause =>
      obtain ⟨state, parked, paused⟩ := history
      simp only [Phase.guarded, List.forall_mem_cons, List.not_mem_nil] at kept
      obtain ⟨callerRsp, argument, back, pauseBack, pauseRbx, -⟩ := kept
      exact ⟨(task 24).trans state, ⟨(task 40).trans parked.nextRsp, (task 56).trans parked.resumePos,
        callerRsp.trans parked.callerRsp, argument.trans parked.argument, back.trans parked.back⟩,
        ⟨paused.inside, (task 32).trans paused.yieldPos, (task 72).trans paused.rax,
          (task 120).trans paused.rsp, (task 128).trans paused.rbp, pauseRbx.trans paused.rbx,
          pauseBack.trans paused.back⟩⟩

end Syslib.Utask
