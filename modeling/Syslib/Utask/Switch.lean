import Syslib.Library.Machine

namespace Syslib.Utask

open Assembly

inductive Routine where
  | asmRunTask | asmYieldTask | asmResumeTask
  deriving DecidableEq, Repr

/-- The task structure, the stack of the task, and the stacks that call the task. -/
inductive Block where
  | task
  | stack
  | host (n : Nat)
  deriving DecidableEq, Repr

abbrev Word := Val Block Routine

abbrev Store := Memory Block Routine

abbrev Cpu := Machine Block Routine

section Assembly

open Op Instr Reg

def asmRunTask : List Instr :=
  [push rbp, mov rsp rbp, push rbx, push rdi, mov rsp r9,
    load 0 rdi rdx, load 8 rdi rax, lea rdx rax rsp,
    push rbp, mov rsp rbp, push rbx, store rbp 64 rdi, push r9, subImm 8 rsp, store rdi 0 rsp,
    load 32 rdi r9, leaRip r8,
    nop, load 0 rsp rdi, load 48 rdi rcx, andImm 1 rcx, test rcx rcx].map op ++
  [jne 28] ++
  [store r8 56 rdi, store rsp 40 rdi].map op ++
  [callMem 16 rdi] ++
  [load 0 rsp rdi, orMem 4 48 rdi,
    -- the label `.ASM_RUN_TASK_YIELD_OVER`
    andMem (-2) 48 rdi,
    addImm 8 rsp, pop r9, pop rbx, pop rbp, mov r9 rsp, pop rdi, pop rbx, pop rbp].map op ++
  [ret]

def asmYieldTask : List Instr :=
  [push rbx, mov rdi rax, load 48 rax rcx, leaRip r8, nop,
    addImm 72 rdi, store rax 0 rdi, store rdx 24 rdi, store rsp 48 rdi, store rbp 56 rdi, leaRip r8,
    nop, load 48 rax rcx, andImm 2 rcx, test rcx rcx].map op ++
  [jne 23] ++
  [orMem 1 48 rax, load 56 rax r9, store r8 32 rax, pop rbx, load 64 rax rbp, load 40 rax rsp].map op ++
  [jmp r9] ++
  -- the label `.ASM_YIELD_TASK_RESUME_POS`
  [andMem (-3) 48 rax, load 56 rdi rbp, pop rbx].map op ++
  [ret]

def asmResumeTask : List Instr :=
  [push rbp, mov rsp rbp, push rbx, mov rdi rbx,
    load 48 rdi rcx, andImm 4 rcx, test rcx rcx].map op ++
  [jne 21] ++
  [addImm 72 rdi, load 0 rdi rax, load 24 rdi rdx, load 48 rdi rdx, load 56 rdi rbp, load 32 rbx r9,
    orMem 2 48 rbx, load 48 rbx rcx, pop rbx, pop rbp, load 56 rdi rbp, mov rdx rsp].map op ++
  [jmp r9] ++
  -- the label `.ASM_RESUME_TASK_OVER`
  [pop rbx, pop rbp].map op ++
  [ret]

end Assembly

def program : Routine → List Instr
  | .asmRunTask => asmRunTask
  | .asmYieldTask => asmYieldTask
  | .asmResumeTask => asmResumeTask

section Blocks

open Op Reg Machine

variable {m : Cpu} {host : Nat} {top : Int}

/-- `asm_run_task` saves the registers on the calling stack and moves to the other one. -/
theorem run_leaves (here : m.next = .inside .asmRunTask 0)
    (at_top : m.registers.rsp = .ptr (.host host) top) (arg : m.registers.rdi = .ptr .task 0)
    (stk : m.memory .task 0 = .ptr .stack 0) (size : BitVec 64) (sized : m.memory .task 8 = .num size) :
    Leads program 8 m { m with
      registers := { m.registers with
        rax := .num size
        rdx := .ptr .stack 0
        rbp := .ptr (.host host) (top - 8)
        rsp := .ptr .stack size.toInt
        r9 := .ptr (.host host) (top - 24) }
      memory := ((m.memory.write (.host host) (top - 8) m.registers.rbp).write (.host host) (top - 16)
        m.registers.rbx).write (.host host) (top - 24) (.ptr .task 0)
      next := .inside .asmRunTask 8 } := by
  refine @leads_block _ _ _ program .asmRunTask 0 _ _ [push rbp, mov rsp rbp, push rbx, push rdi,
    mov rsp r9, load 0 rdi rdx, load 8 rdi rax, lea rdx rax rsp] here rfl ?_
  obtain ⟨⟨rax, rbx, rcx, rdx, rbp, rsp, rdi, r8, r9⟩, memory, zero, next⟩ := m
  dsimp only at at_top arg stk sized
  subst at_top arg
  simp [block, apply, pushVal, setReg, Registers.get, Registers.set, Val.address, Val.add, write_block,
    stk, sized, Int.sub_sub]

/-- It parks the two stack pointers on the stack of the task. -/
theorem run_parks (here : m.next = .inside .asmRunTask 8) (at_top : m.registers.rsp = .ptr .stack top)
    (arg : m.registers.rdi = .ptr .task 0) :
    Leads program 9 m { m with
      registers := { m.registers with
        rbp := .ptr .stack (top - 8)
        rsp := .ptr .stack (top - 32)
        r8 := .code (.inside .asmRunTask 17)
        r9 := m.memory .task 32 }
      memory := ((((m.memory.write .stack (top - 8) m.registers.rbp).write .stack (top - 16)
        m.registers.rbx).write .task 64 (.ptr .stack (top - 8))).write .stack (top - 24)
        m.registers.r9).write .stack (top - 32) (.ptr .task 0)
      next := .inside .asmRunTask 17 } := by
  refine @leads_block _ _ _ program .asmRunTask 8 _ _ [push rbp, mov rsp rbp, push rbx,
    store rbp 64 rdi, push r9, subImm 8 rsp, store rdi 0 rsp, load 32 rdi r9, leaRip r8] here rfl ?_
  obtain ⟨⟨rax, rbx, rcx, rdx, rbp, rsp, rdi, r8, r9⟩, memory, zero, next⟩ := m
  dsimp only at at_top arg
  subst at_top arg
  simp [block, apply, pushVal, updateMem, setReg, Registers.get, Registers.set, Val.address, Val.sub,
    write_block, write_apart, Int.sub_sub]

/-- The first bit of the jump flag tells a fresh task from a task that yields. -/
theorem run_tests (here : m.next = .inside .asmRunTask 17) (low : m.registers.rsp = .ptr .stack top)
    (parked : m.memory .stack top = .ptr .task 0) (flag : BitVec 64)
    (flagged : m.memory .task 48 = .num flag) :
    Leads program 6 m { m with
      registers := { m.registers with
        rcx := .num (flag &&& 1)
        rdi := .ptr .task 0 }
      zero := flag &&& 1 == 0
      next := .inside .asmRunTask (if flag &&& 1 == 0 then 23 else 28) } := by
  let tested : Cpu := { m with
    registers := { m.registers with
      rcx := .num (flag &&& 1)
      rdi := .ptr .task 0 }
    zero := flag &&& 1 == 0
    next := .inside .asmRunTask 22 }
  have tests : Leads program 5 m tested := by
    refine @leads_block _ _ _ program .asmRunTask 17 _ _ [nop, load 0 rsp rdi, load 48 rdi rcx,
      andImm 1 rcx, test rcx rcx] here rfl ?_
    obtain ⟨⟨rax, rbx, rcx, rdx, rbp, rsp, rdi, r8, r9⟩, memory, zero, next⟩ := m
    dsimp only at low parked flagged
    subst low
    simp [block, apply, setReg, Registers.get, Registers.set, Val.address, Val.and, Val.number, parked,
      flagged, tested]
  exact tests.trans (leads_jne rfl rfl)

/-- A fresh task starts in its function. -/
theorem run_calls (here : m.next = .inside .asmRunTask 23) (low : m.registers.rsp = .ptr .stack top)
    (arg : m.registers.rdi = .ptr .task 0) (later : m.registers.r8 = .code (.inside .asmRunTask 17))
    (place : Place Routine) (func : m.memory .task 16 = .code place) :
    Leads program 3 m { m with
      registers := { m.registers with rsp := .ptr .stack (top - 8) }
      memory := ((m.memory.write .task 56 (.code (.inside .asmRunTask 17))).write .task 40
        (.ptr .stack top)).write .stack (top - 8) (.code (.inside .asmRunTask 26))
      next := place } := by
  let stored : Cpu := { m with
    memory := (m.memory.write .task 56 (.code (.inside .asmRunTask 17))).write .task 40 (.ptr .stack top)
    next := .inside .asmRunTask 25 }
  have stores : Leads program 2 m stored := by
    refine @leads_block _ _ _ program .asmRunTask 23 _ _ [store r8 56 rdi, store rsp 40 rdi] here rfl ?_
    obtain ⟨⟨rax, rbx, rcx, rdx, rbp, rsp, rdi, r8, r9⟩, memory, zero, next⟩ := m
    dsimp only at low arg later
    subst low arg later
    simp [block, apply, updateMem, Registers.get, Val.address, stored]
  refine stores.trans (leads_instr rfl rfl ?_)
  simp [jump, stored, Registers.get, low, arg, func, Val.address, Val.place, pushVal, write_apart]

/-- The task returns into `asm_run_task`. -/
theorem run_ends (here : m.next = .inside .asmRunTask 26) (low : m.registers.rsp = .ptr .stack top)
    (parked : m.memory .stack top = .ptr .task 0) :
    Leads program 2 m { m with
      registers := { m.registers with rdi := .ptr .task 0 }
      memory := m.memory.write .task 48 ((m.memory .task 48).or 4)
      next := .inside .asmRunTask 28 } := by
  refine @leads_block _ _ _ program .asmRunTask 26 _ _ [load 0 rsp rdi, orMem 4 48 rdi] here rfl ?_
  obtain ⟨⟨rax, rbx, rcx, rdx, rbp, rsp, rdi, r8, r9⟩, memory, zero, next⟩ := m
  dsimp only at low parked
  subst low
  simp [block, apply, updateMem, setReg, Registers.get, Registers.set, Val.address, parked]

/-- The way back takes the calling stack from the stack of the task. -/
theorem run_switches (here : m.next = .inside .asmRunTask 28) (low : m.registers.rsp = .ptr .stack top)
    (arg : m.registers.rdi = .ptr .task 0) (saved : Int)
    (parked : m.memory .stack (top + 8) = .ptr (.host host) saved) :
    Leads program 6 m { m with
      registers := { m.registers with
        rbx := m.memory .stack (top + 16)
        rbp := m.memory .stack (top + 24)
        rsp := .ptr (.host host) saved
        r9 := .ptr (.host host) saved }
      memory := m.memory.write .task 48 ((m.memory .task 48).and (-2))
      next := .inside .asmRunTask 34 } := by
  refine @leads_block _ _ _ program .asmRunTask 28 _ _ [andMem (-2) 48 rdi, addImm 8 rsp, pop r9,
    pop rbx, pop rbp, mov r9 rsp] here rfl ?_
  obtain ⟨⟨rax, rbx, rcx, rdx, rbp, rsp, rdi, r8, r9⟩, memory, zero, next⟩ := m
  dsimp only at low arg parked
  subst low arg
  simp [block, apply, updateMem, popVal, setReg, Registers.get, Registers.set, Val.address, Val.add,
    write_block, parked, Int.add_assoc]

/-- The last registers and the return address come from the calling stack. -/
theorem run_returns (here : m.next = .inside .asmRunTask 34)
    (at_saved : m.registers.rsp = .ptr (.host host) top) (place : Place Routine)
    (back : m.memory (.host host) (top + 24) = .code place) :
    Leads program 4 m { m with
      registers := { m.registers with
        rdi := m.memory (.host host) top
        rbx := m.memory (.host host) (top + 8)
        rbp := m.memory (.host host) (top + 16)
        rsp := .ptr (.host host) (top + 32) }
      next := place } := by
  let popped : Cpu := { m with
    registers := { m.registers with
      rdi := m.memory (.host host) top
      rbx := m.memory (.host host) (top + 8)
      rbp := m.memory (.host host) (top + 16)
      rsp := .ptr (.host host) (top + 24) }
    next := .inside .asmRunTask 37 }
  have pops : Leads program 3 m popped := by
    refine @leads_block _ _ _ program .asmRunTask 34 _ _ [pop rdi, pop rbx, pop rbp] here rfl ?_
    obtain ⟨⟨rax, rbx, rcx, rdx, rbp, rsp, rdi, r8, r9⟩, memory, zero, next⟩ := m
    dsimp only at at_saved
    subst at_saved
    simp [block, apply, popVal, setReg, Registers.set, Val.address, Int.add_assoc, popped]
  refine pops.trans (leads_instr rfl rfl ?_)
  simp [jump, popVal, popped, back, Val.address, Val.place, Int.add_assoc]

/-- `asm_yield_task` saves the place on the stack of the task and tests the second bit. -/
theorem yield_saves (here : m.next = .inside .asmYieldTask 0)
    (at_top : m.registers.rsp = .ptr .stack top) (arg : m.registers.rdi = .ptr .task 0)
    (flag : BitVec 64) (flagged : m.memory .task 48 = .num flag) :
    Leads program 16 m { m with
      registers := { m.registers with
        rax := .ptr .task 0
        rcx := .num (flag &&& 2)
        rsp := .ptr .stack (top - 8)
        rdi := .ptr .task 72
        r8 := .code (.inside .asmYieldTask 11) }
      memory := ((((m.memory.write .stack (top - 8) m.registers.rbx).write .task 72
        (.ptr .task 0)).write .task 96 m.registers.rdx).write .task 120 (.ptr .stack (top - 8))).write
        .task 128 m.registers.rbp
      zero := flag &&& 2 == 0
      next := .inside .asmYieldTask (if flag &&& 2 == 0 then 16 else 23) } := by
  let tested : Cpu := { m with
    registers := { m.registers with
      rax := .ptr .task 0
      rcx := .num (flag &&& 2)
      rsp := .ptr .stack (top - 8)
      rdi := .ptr .task 72
      r8 := .code (.inside .asmYieldTask 11) }
    memory := ((((m.memory.write .stack (top - 8) m.registers.rbx).write .task 72
      (.ptr .task 0)).write .task 96 m.registers.rdx).write .task 120 (.ptr .stack (top - 8))).write
      .task 128 m.registers.rbp
    zero := flag &&& 2 == 0
    next := .inside .asmYieldTask 15 }
  have tests : Leads program 15 m tested := by
    refine @leads_block _ _ _ program .asmYieldTask 0 _ _ [push rbx, mov rdi rax, load 48 rax rcx,
      leaRip r8, nop, addImm 72 rdi, store rax 0 rdi, store rdx 24 rdi, store rsp 48 rdi, store rbp 56 rdi,
      leaRip r8, nop, load 48 rax rcx, andImm 2 rcx, test rcx rcx] here rfl ?_
    obtain ⟨⟨rax, rbx, rcx, rdx, rbp, rsp, rdi, r8, r9⟩, memory, zero, next⟩ := m
    dsimp only at at_top arg flagged
    subst at_top arg
    simp [block, apply, pushVal, updateMem, setReg, Registers.get, Registers.set, Val.address, Val.add,
      Val.and, Val.number, write_block, write_apart, flagged, tested]
  exact tests.trans (leads_jne rfl rfl)

/-- The task leaves for the place that `asm_run_task` has saved. -/
theorem yield_leaves (here : m.next = .inside .asmYieldTask 16)
    (low : m.registers.rsp = .ptr .stack top) (arg : m.registers.rax = .ptr .task 0)
    (place : Place Routine) (later : m.memory .task 56 = .code place) :
    Leads program 7 m { m with
      registers := { m.registers with
        rbx := m.memory .stack top
        rbp := m.memory .task 64
        rsp := m.memory .task 40
        r9 := .code place }
      memory := (m.memory.write .task 48 ((m.memory .task 48).or 1)).write .task 32 m.registers.r8
      next := place } := by
  let switched : Cpu := { m with
    registers := { m.registers with
      rbx := m.memory .stack top
      rbp := m.memory .task 64
      rsp := m.memory .task 40
      r9 := .code place }
    memory := (m.memory.write .task 48 ((m.memory .task 48).or 1)).write .task 32 m.registers.r8
    next := .inside .asmYieldTask 22 }
  have switches : Leads program 6 m switched := by
    refine @leads_block _ _ _ program .asmYieldTask 16 _ _ [orMem 1 48 rax, load 56 rax r9,
      store r8 32 rax, pop rbx, load 64 rax rbp, load 40 rax rsp] here rfl ?_
    obtain ⟨⟨rax, rbx, rcx, rdx, rbp, rsp, rdi, r8, r9⟩, memory, zero, next⟩ := m
    dsimp only at low arg later
    subst low arg
    simp [block, apply, updateMem, popVal, setReg, Registers.get, Registers.set, Val.address,
      write_block, write_apart, later, switched]
  refine switches.trans (leads_instr rfl rfl ?_)
  simp [jump, switched, Registers.get, Val.place]

/-- `asm_resume_task` comes back to the second half of `asm_yield_task`. -/
theorem yield_tests (here : m.next = .inside .asmYieldTask 11) (arg : m.registers.rax = .ptr .task 0)
    (flag : BitVec 64) (flagged : m.memory .task 48 = .num flag) :
    Leads program 5 m { m with
      registers := { m.registers with rcx := .num (flag &&& 2) }
      zero := flag &&& 2 == 0
      next := .inside .asmYieldTask (if flag &&& 2 == 0 then 16 else 23) } := by
  let tested : Cpu := { m with
    registers := { m.registers with rcx := .num (flag &&& 2) }
    zero := flag &&& 2 == 0
    next := .inside .asmYieldTask 15 }
  have tests : Leads program 4 m tested := by
    refine @leads_block _ _ _ program .asmYieldTask 11 _ _ [nop, load 48 rax rcx, andImm 2 rcx,
      test rcx rcx] here rfl ?_
    obtain ⟨⟨rax, rbx, rcx, rdx, rbp, rsp, rdi, r8, r9⟩, memory, zero, next⟩ := m
    dsimp only at arg flagged
    subst arg
    simp [block, apply, setReg, Registers.get, Registers.set, Val.address, Val.and, Val.number, flagged,
      tested]
  exact tests.trans (leads_jne rfl rfl)

/-- The task goes on after its yield. -/
theorem yield_continues (here : m.next = .inside .asmYieldTask 23)
    (low : m.registers.rsp = .ptr .stack top) (first : m.registers.rax = .ptr .task 0)
    (arg : m.registers.rdi = .ptr .task 72) (place : Place Routine)
    (back : m.memory .stack (top + 8) = .code place) :
    Leads program 4 m { m with
      registers := { m.registers with
        rbx := m.memory .stack top
        rbp := m.memory .task 128
        rsp := .ptr .stack (top + 16) }
      memory := m.memory.write .task 48 ((m.memory .task 48).and (-3))
      next := place } := by
  let popped : Cpu := { m with
    registers := { m.registers with
      rbx := m.memory .stack top
      rbp := m.memory .task 128
      rsp := .ptr .stack (top + 8) }
    memory := m.memory.write .task 48 ((m.memory .task 48).and (-3))
    next := .inside .asmYieldTask 26 }
  have pops : Leads program 3 m popped := by
    refine @leads_block _ _ _ program .asmYieldTask 23 _ _ [andMem (-3) 48 rax, load 56 rdi rbp,
      pop rbx] here rfl ?_
    obtain ⟨⟨rax, rbx, rcx, rdx, rbp, rsp, rdi, r8, r9⟩, memory, zero, next⟩ := m
    dsimp only at low first arg
    subst low first arg
    simp [block, apply, updateMem, popVal, setReg, Registers.get, Registers.set, Val.address,
      write_block, write_apart, popped]
  refine pops.trans (leads_instr rfl rfl ?_)
  simp [jump, popVal, popped, back, write_block, Val.address, Val.place, Int.add_assoc]

/-- `asm_resume_task` tests the third bit. -/
theorem resume_tests (here : m.next = .inside .asmResumeTask 0)
    (at_top : m.registers.rsp = .ptr (.host host) top) (arg : m.registers.rdi = .ptr .task 0)
    (flag : BitVec 64) (flagged : m.memory .task 48 = .num flag) :
    Leads program 8 m { m with
      registers := { m.registers with
        rbx := .ptr .task 0
        rcx := .num (flag &&& 4)
        rbp := .ptr (.host host) (top - 8)
        rsp := .ptr (.host host) (top - 16) }
      memory := (m.memory.write (.host host) (top - 8) m.registers.rbp).write (.host host) (top - 16)
        m.registers.rbx
      zero := flag &&& 4 == 0
      next := .inside .asmResumeTask (if flag &&& 4 == 0 then 8 else 21) } := by
  let tested : Cpu := { m with
    registers := { m.registers with
      rbx := .ptr .task 0
      rcx := .num (flag &&& 4)
      rbp := .ptr (.host host) (top - 8)
      rsp := .ptr (.host host) (top - 16) }
    memory := (m.memory.write (.host host) (top - 8) m.registers.rbp).write (.host host) (top - 16)
      m.registers.rbx
    zero := flag &&& 4 == 0
    next := .inside .asmResumeTask 7 }
  have tests : Leads program 7 m tested := by
    refine @leads_block _ _ _ program .asmResumeTask 0 _ _ [push rbp, mov rsp rbp, push rbx, mov rdi rbx,
      load 48 rdi rcx, andImm 4 rcx, test rcx rcx] here rfl ?_
    obtain ⟨⟨rax, rbx, rcx, rdx, rbp, rsp, rdi, r8, r9⟩, memory, zero, next⟩ := m
    dsimp only at at_top arg flagged
    subst at_top arg
    simp [block, apply, pushVal, setReg, Registers.get, Registers.set, Val.address, Val.and, Val.number,
      write_block, flagged, Int.sub_sub, tested]
  exact tests.trans (leads_jne rfl rfl)

/-- The saved registers of the task replace those of the caller. -/
theorem resume_enters (here : m.next = .inside .asmResumeTask 8)
    (at_top : m.registers.rsp = .ptr (.host host) top) (arg : m.registers.rdi = .ptr .task 0)
    (kept : m.registers.rbx = .ptr .task 0) (place : Place Routine)
    (later : m.memory .task 32 = .code place) :
    Leads program 13 m { m with
      registers := { m.registers with
        rax := m.memory .task 72
        rbx := m.memory (.host host) top
        rcx := (m.memory .task 48).or 2
        rdx := m.memory .task 120
        rbp := m.memory .task 128
        rsp := m.memory .task 120
        rdi := .ptr .task 72
        r9 := .code place }
      memory := m.memory.write .task 48 ((m.memory .task 48).or 2)
      next := place } := by
  let loaded : Cpu := { m with
    registers := { m.registers with
      rax := m.memory .task 72
      rbx := m.memory (.host host) top
      rcx := (m.memory .task 48).or 2
      rdx := m.memory .task 120
      rbp := m.memory .task 128
      rsp := m.memory .task 120
      rdi := .ptr .task 72
      r9 := .code place }
    memory := m.memory.write .task 48 ((m.memory .task 48).or 2)
    next := .inside .asmResumeTask 20 }
  have loads : Leads program 12 m loaded := by
    refine @leads_block _ _ _ program .asmResumeTask 8 _ _ [addImm 72 rdi, load 0 rdi rax, load 24 rdi rdx,
      load 48 rdi rdx, load 56 rdi rbp, load 32 rbx r9, orMem 2 48 rbx, load 48 rbx rcx, pop rbx, pop rbp,
      load 56 rdi rbp, mov rdx rsp] here rfl ?_
    obtain ⟨⟨rax, rbx, rcx, rdx, rbp, rsp, rdi, r8, r9⟩, memory, zero, next⟩ := m
    dsimp only at at_top arg kept later
    subst at_top arg kept
    simp [block, apply, updateMem, popVal, setReg, Registers.get, Registers.set, Val.address, Val.add,
      write_block, write_apart, later, loaded]
  refine loads.trans (leads_instr rfl rfl ?_)
  simp [jump, loaded, Registers.get, Val.place]

end Blocks

end Syslib.Utask
