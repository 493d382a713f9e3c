import Mathlib.Data.BitVec

namespace Syslib.Assembly

variable {Block Routine : Type}

/-- Code is at an index of a known routine, or at an address outside of them. -/
inductive Place (Routine : Type) where
  | inside (routine : Routine) (index : Nat)
  | outside (address : Nat)
  deriving DecidableEq, Repr

/-- A word holds a number, an offset in a block of memory, or a place in the code. -/
inductive Val (Block Routine : Type) where
  | undef
  | num (n : BitVec 64)
  | ptr (block : Block) (offset : Int)
  | code (place : Place Routine)
  deriving DecidableEq, Repr

namespace Val

def add : Val Block Routine → Val Block Routine → Val Block Routine
  | num first, num second => num (first + second)
  | ptr block offset, num n => ptr block (offset + n.toInt)
  | num n, ptr block offset => ptr block (offset + n.toInt)
  | _, _ => undef

def sub : Val Block Routine → Val Block Routine → Val Block Routine
  | num first, num second => num (first - second)
  | ptr block offset, num n => ptr block (offset - n.toInt)
  | _, _ => undef

def and : Val Block Routine → BitVec 64 → Val Block Routine
  | num n, mask => num (n &&& mask)
  | _, _ => undef

def or : Val Block Routine → BitVec 64 → Val Block Routine
  | num n, mask => num (n ||| mask)
  | _, _ => undef

end Val

/-- Each byte offset of a block starts one word. -/
abbrev Memory (Block Routine : Type) := Block → Int → Val Block Routine

/-- A stored word destroys the words that start inside it or end inside it. -/
def Memory.write [DecidableEq Block] (memory : Memory Block Routine) (block : Block) (offset : Int)
    (val : Val Block Routine) : Memory Block Routine :=
  fun other position =>
    if other = block then
      if position = offset then val
      else if position < offset + 8 ∧ offset < position + 8 then .undef
      else memory other position
    else memory other position

section Write

variable [DecidableEq Block] {memory : Memory Block Routine} {block other : Block}
  {offset position : Int} {val : Val Block Routine}

@[simp] theorem write_same : memory.write block offset val block offset = val := by
  simp [Memory.write]

theorem write_block (apart : other ≠ block) :
    memory.write block offset val other position = memory other position :=
  if_neg apart

theorem write_apart (apart : position + 8 ≤ offset ∨ offset + 8 ≤ position) :
    memory.write block offset val other position = memory other position := by
  have distinct : position ≠ offset := by omega
  have disjoint : ¬ (position < offset + 8 ∧ offset < position + 8) := by omega
  simp [Memory.write, distinct, disjoint]

end Write

inductive Reg where
  | rax | rbx | rcx | rdx | rbp | rsp | rdi | r8 | r9
  deriving DecidableEq, Repr

structure Registers (Block Routine : Type) where
  rax : Val Block Routine
  rbx : Val Block Routine
  rcx : Val Block Routine
  rdx : Val Block Routine
  rbp : Val Block Routine
  rsp : Val Block Routine
  rdi : Val Block Routine
  r8 : Val Block Routine
  r9 : Val Block Routine
  deriving DecidableEq, Repr

def Registers.get (registers : Registers Block Routine) : Reg → Val Block Routine
  | .rax => registers.rax
  | .rbx => registers.rbx
  | .rcx => registers.rcx
  | .rdx => registers.rdx
  | .rbp => registers.rbp
  | .rsp => registers.rsp
  | .rdi => registers.rdi
  | .r8 => registers.r8
  | .r9 => registers.r9

def Registers.set (registers : Registers Block Routine) (val : Val Block Routine) :
    Reg → Registers Block Routine
  | .rax => { registers with rax := val }
  | .rbx => { registers with rbx := val }
  | .rcx => { registers with rcx := val }
  | .rdx => { registers with rdx := val }
  | .rbp => { registers with rbp := val }
  | .rsp => { registers with rsp := val }
  | .rdi => { registers with rdi := val }
  | .r8 => { registers with r8 := val }
  | .r9 => { registers with r9 := val }

/-- These instructions go on to the next one. -/
inductive Op where
  | push (source : Reg)
  | pop (target : Reg)
  | mov (source target : Reg)
  | load (shift : Int) (base target : Reg)
  | store (source : Reg) (shift : Int) (base : Reg)
  | lea (base index target : Reg)
  | leaRip (target : Reg)
  | addImm (n : BitVec 64) (target : Reg)
  | subImm (n : BitVec 64) (target : Reg)
  | andImm (mask : BitVec 64) (target : Reg)
  | andMem (mask : BitVec 64) (shift : Int) (base : Reg)
  | orMem (mask : BitVec 64) (shift : Int) (base : Reg)
  | test (first second : Reg)
  | nop
  deriving DecidableEq, Repr

inductive Instr where
  | op (op : Op)
  | jne (target : Nat)
  | callMem (shift : Int) (base : Reg)
  | jmp (target : Reg)
  | ret
  deriving DecidableEq, Repr

/-- `next` is the place of the next instruction. -/
structure Machine (Block Routine : Type) where
  registers : Registers Block Routine
  memory : Memory Block Routine
  zero : Bool
  next : Place Routine

/-- Only an offset in a block is an address. -/
def Val.address : Val Block Routine → Option (Block × Int)
  | .ptr block offset => some (block, offset)
  | _ => none

def Val.place : Val Block Routine → Option (Place Routine)
  | .code place => some place
  | _ => none

def Val.number : Val Block Routine → Option (BitVec 64)
  | .num n => some n
  | _ => none

variable [DecidableEq Block]

namespace Machine

def setReg (m : Machine Block Routine) (target : Reg) (val : Val Block Routine) :
    Machine Block Routine :=
  { m with registers := m.registers.set val target }

def pushVal (m : Machine Block Routine) (val : Val Block Routine) : Option (Machine Block Routine) := do
  let (block, offset) ← m.registers.rsp.address
  some { m with
    registers := { m.registers with rsp := .ptr block (offset - 8) }
    memory := m.memory.write block (offset - 8) val }

def popVal (m : Machine Block Routine) : Option (Val Block Routine × Machine Block Routine) := do
  let (block, offset) ← m.registers.rsp.address
  some (m.memory block offset,
    { m with registers := { m.registers with rsp := .ptr block (offset + 8) } })

def updateMem (m : Machine Block Routine) (shift : Int) (base : Reg)
    (change : Val Block Routine → Val Block Routine) : Option (Machine Block Routine) := do
  let (block, offset) ← (m.registers.get base).address
  some { m with
    memory := m.memory.write block (offset + shift) (change (m.memory block (offset + shift))) }

/-- `next` has already moved on when the instruction runs. -/
def apply (m : Machine Block Routine) : Op → Option (Machine Block Routine)
  | .push source => m.pushVal (m.registers.get source)
  | .pop target => do
      let (val, popped) ← m.popVal
      some (popped.setReg target val)
  | .mov source target => some (m.setReg target (m.registers.get source))
  | .load shift base target => do
      let (block, offset) ← (m.registers.get base).address
      some (m.setReg target (m.memory block (offset + shift)))
  | .store source shift base => m.updateMem shift base fun _ => m.registers.get source
  | .lea base index target =>
      some (m.setReg target ((m.registers.get base).add (m.registers.get index)))
  | .leaRip target => some (m.setReg target (.code m.next))
  | .addImm n target => some (m.setReg target ((m.registers.get target).add (.num n)))
  | .subImm n target => some (m.setReg target ((m.registers.get target).sub (.num n)))
  | .andImm mask target => some (m.setReg target ((m.registers.get target).and mask))
  | .andMem mask shift base => m.updateMem shift base fun val => val.and mask
  | .orMem mask shift base => m.updateMem shift base fun val => val.or mask
  | .test first second => do
      let n ← (m.registers.get first).number
      let k ← (m.registers.get second).number
      some { m with zero := n &&& k == 0 }
  | .nop => some m

def jump (m : Machine Block Routine) (routine : Routine) : Instr → Option (Machine Block Routine)
  | .op op => m.apply op
  | .jne target => some (if m.zero then m else { m with next := .inside routine target })
  | .callMem shift base => do
      let (block, offset) ← (m.registers.get base).address
      let place ← (m.memory block (offset + shift)).place
      let pushed ← m.pushVal (.code m.next)
      some { pushed with next := place }
  | .jmp target => do
      let place ← (m.registers.get target).place
      some { m with next := place }
  | .ret => do
      let (val, popped) ← m.popVal
      let place ← val.place
      some { popped with next := place }

/-- The machine runs until it leaves the routines. -/
def run (program : Routine → List Instr) : Nat → Machine Block Routine → Option (Machine Block Routine)
  | 0, m =>
      match m.next with
      | .outside _ => some m
      | .inside _ _ => none
  | fuel + 1, m =>
      match m.next with
      | .outside _ => some m
      | .inside routine index => do
          let instr ← (program routine)[index]?
          (jump { m with next := .inside routine (index + 1) } routine instr).bind (run program fuel)

/-- These instructions run one after the other from the index on. -/
def block (routine : Routine) : Nat → List Op → Machine Block Routine → Option (Machine Block Routine)
  | _, [], m => some m
  | index, op :: ops, m =>
      (apply { m with next := .inside routine (index + 1) } op).bind (block routine (index + 1) ops)

theorem apply_next {m after : Machine Block Routine} {op : Op} (applied : m.apply op = some after) :
    after.next = m.next := by
  cases op <;>
    simp only [apply, pushVal, popVal, updateMem, setReg, Option.bind_eq_bind, Option.bind_eq_some_iff,
      Option.some.injEq, Prod.exists, Prod.mk.injEq] at applied <;>
    grind

/-- The run that starts in one state goes on in the other after so many instructions. -/
def Leads (program : Routine → List Instr) (count : Nat) (m after : Machine Block Routine) : Prop :=
  ∀ fuel, run program (fuel + count) m = run program fuel after

section Run

variable {program : Routine → List Instr} {routine : Routine} {index : Nat}
  {m after last : Machine Block Routine}

theorem Leads.trans {first second : Nat} (start : Leads program first m after)
    (rest : Leads program second after last) : Leads program (second + first) m last := by
  intro fuel
  rw [← Nat.add_assoc, start, rest]

theorem Leads.returns {count fuel : Nat} {address : Nat} (leads : Leads program count m after)
    (enough : count ≤ fuel) (left : after.next = .outside address) : run program fuel m = some after := by
  obtain ⟨rest, rfl⟩ := Nat.exists_eq_add_of_le' enough
  rw [leads]
  cases rest <;> simp only [run, left]

theorem leads_instr {instr : Instr} (here : m.next = .inside routine index)
    (listed : (program routine)[index]? = some instr)
    (jumps : jump { m with next := .inside routine (index + 1) } routine instr = some after) :
    Leads program 1 m after := by
  intro fuel
  simp only [run, here, listed, jumps, Option.bind_eq_bind, Option.bind_some]

theorem leads_jne {target : Nat} (here : m.next = .inside routine index)
    (listed : (program routine)[index]? = some (.jne target)) :
    Leads program 1 m { m with next := .inside routine (if m.zero then index + 1 else target) } := by
  refine leads_instr here listed ?_
  cases m.zero <;> simp [jump]

/-- A block of plain instructions runs as its list does. -/
theorem leads_block {ops : List Op} (here : m.next = .inside routine index)
    (listed : ((program routine).drop index).take ops.length = ops.map Instr.op)
    (runs : m.block routine index ops = some after) : Leads program ops.length m after := by
  induction ops generalizing index m with
  | nil =>
      intro fuel
      rw [← Option.some.inj runs]
      rfl
  | cons op rest ih =>
      obtain ⟨middle, applied, runs⟩ := Option.bind_eq_some_iff.mp runs
      have inside : index < (program routine).length := by
        by_contra beyond
        rw [List.drop_of_length_le (by omega)] at listed
        simp at listed
      rw [List.drop_eq_getElem_cons inside, List.length_cons, List.take_succ_cons, List.map_cons,
        List.cons.injEq] at listed
      have first : Leads program 1 m middle :=
        leads_instr here (List.getElem?_eq_some_iff.mpr ⟨inside, listed.1⟩) applied
      exact first.trans (ih (apply_next applied) listed.2 runs)

end Run

end Machine

end Syslib.Assembly
