import Lc3.Address
import Lc3.State
import Lc3.Instruction.Basic

/-! # What an instruction does

An instruction first reads and checks everything it needs; only then does anything change. So its
meaning is split in two:

* `Instruction.effect` computes the `Effect`: the registers afterwards, at most one store, and for
  TRAP the service routine that is wanted. It fails with the first problem in the order of reading.
* `State.commit` makes the change and cannot fail.

PC is used as it stands: whoever executes an instruction has already moved PC behind it.
-/

namespace Lc3
set_option autoImplicit false

instance : MonadLift (Except Misuse) (Except Fault) where
  monadLift := Fault.ofMisuse

instance : MonadLift (Except ExecutionError) (Except Fault) where
  monadLift := Fault.ofExecution

/-- The change that an instruction makes. -/
structure Effect where
  regs : RegisterFile
  /-- the address and the word of the one cell that is written -/
  store : Option (Word × Word) := none
  /-- the vector of the service routine to call -/
  service : Option Byte := none

def Operand.value (regs : RegisterFile) : Operand → Except Misuse Word
  | register r => regs.read r
  | immediate value => .ok (BitVec.ofInt 16 value)

/-- Puts `f` of register `sr` and the second operand into register `dr`. -/
def RegisterFile.combine (regs : RegisterFile) (f : Word → Word → Word) (dr sr : Byte)
    (operand : Operand) : Except Misuse RegisterFile := do
  let left ← regs.read sr
  let right ← operand.value regs
  regs.writeResult dr (f left right)

namespace Instruction

/-- The effect of an instruction on the given registers and memory. ADD, AND, NOT and the loads
set the condition code from the value that they write; nothing else does. JSRR reads its base
register before the return address overwrites R7. -/
def effect (regs : RegisterFile) (mem : Memory) : Instruction → Except Fault Effect
  | add dr sr operand => do
    return { regs := ← regs.combine (· + ·) dr sr operand }
  | and dr sr operand => do
    return { regs := ← regs.combine (· &&& ·) dr sr operand }
  | not dr sr => do
    let value ← regs.read sr
    return { regs := ← regs.writeResult dr (~~~value) }
  | ld dr offset => do
    let address ← effectiveAddress regs.pc offset
    return { regs := ← regs.writeResult dr (mem.read address) }
  | ldi dr offset => do
    let address ← effectiveAddress regs.pc offset
    return { regs := ← regs.writeResult dr (mem.read (mem.read address)) }
  | ldr dr base offset => do
    let start ← regs.read base
    let address ← effectiveAddress start offset
    return { regs := ← regs.writeResult dr (mem.read address) }
  | lea dr offset => do
    let address ← effectiveAddress regs.pc offset
    return { regs := ← regs.writeResult dr address }
  | st sr offset => do
    let address ← effectiveAddress regs.pc offset
    let value ← regs.read sr
    return { regs, store := some (address, value) }
  | sti sr offset => do
    let address ← effectiveAddress regs.pc offset
    let value ← regs.read sr
    return { regs, store := some (mem.read address, value) }
  | str sr base offset => do
    let start ← regs.read base
    let address ← effectiveAddress start offset
    let value ← regs.read sr
    return { regs, store := some (address, value) }
  | br n z p offset => do
    if regs.condition.selectedBy n z p then
      let target ← effectiveAddress regs.pc offset
      return { regs := { regs with pc := target } }
    else
      return { regs }
  | jmp base => do
    let target ← regs.read base
    return { regs := { regs with pc := target } }
  | jsr offset => do
    let target ← effectiveAddress regs.pc offset
    return { regs := { regs.withLink regs.pc with pc := target } }
  | jsrr base => do
    let target ← regs.read base
    return { regs := { regs.withLink regs.pc with pc := target } }
  | trap vector =>
    return { regs := regs.withLink regs.pc, service := some vector }

end Instruction

def State.commit (s : State) (e : Effect) : State where
  regs := e.regs
  mem :=
    match e.store with
    | some (address, word) => s.mem.write address word
    | none => s.mem

/-- Executes an instruction without a machine around it; a TRAP only saves the return address. -/
def Instruction.perform (i : Instruction) (s : State) : Except Fault State := do
  return s.commit (← i.effect s.regs s.mem)

end Lc3
