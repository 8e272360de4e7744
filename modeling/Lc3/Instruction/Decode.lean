import Lc3.Field.Basic
import Lc3.Instruction.Basic
import Lc3.Instruction.Opcode

/-! # Decoding

From an instruction word to an instruction: the opcode decides which fields are read. Bits outside
of those fields have no influence.
-/

namespace Lc3.Instruction
set_option autoImplicit false

/-- The second operand of ADD and AND: bit 6 decides between an immediate value and a register. -/
def operandOf (word : Word) : Except Misuse Operand := do
  if ← Field.immediateMode word then
    return .immediate (← Field.immediate word)
  else
    return .register (← Field.secondSource word)

def ofFields (word : Word) : Opcode → Except Misuse Instruction
  | .add => return .add (← Field.destination word) (← Field.source word) (← operandOf word)
  | .and => return .and (← Field.destination word) (← Field.source word) (← operandOf word)
  | .not => return .not (← Field.destination word) (← Field.source word)
  | .ld => return .ld (← Field.destination word) (← Field.offset word 9)
  | .ldi => return .ldi (← Field.destination word) (← Field.offset word 9)
  | .lea => return .lea (← Field.destination word) (← Field.offset word 9)
  | .st => return .st (← Field.destination word) (← Field.offset word 9)
  | .sti => return .sti (← Field.destination word) (← Field.offset word 9)
  | .ldr =>
    return .ldr (← Field.destination word) (← Field.base word) (← Field.offset word 6)
  | .str =>
    return .str (← Field.destination word) (← Field.base word) (← Field.offset word 6)
  | .jmp => return .jmp (← Field.base word)
  | .br =>
    return .br (← Field.flag word 12) (← Field.flag word 11) (← Field.flag word 10)
      (← Field.offset word 9)
  | .jsr => do
    if ← Field.flag word 12 then
      return .jsr (← Field.offset word 11)
    else
      return .jsrr (← Field.base word)
  | .trap => return .trap (← Field.trapVector word)

/-- The instruction of a word, or `none` if its opcode has none. -/
def decode (word : Word) : Except Misuse (Option Instruction) := do
  match Opcode.ofCode? (← Field.opcode word) with
  | some op => return some (← ofFields word op)
  | none => return none

end Lc3.Instruction
