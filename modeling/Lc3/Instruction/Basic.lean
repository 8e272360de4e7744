import Lc3.Word
import Lc3.Record

/-! # Instructions

An instruction with its operands, all signed fields already widened to integers. Register numbers
are bytes: whether the register exists is checked when the instruction is executed.

`Instruction.record` writes an instruction by its layout: ADD, AND and NOT operate on registers;
LD, ST, LDI, STI and LEA address relative to PC; LDR, STR and JMP address from a base register.
-/

namespace Lc3
set_option autoImplicit false

inductive Operand where
  | register (r : Byte)
  | immediate (value : Int)
deriving DecidableEq

/-- An instruction. Offsets count cells, from the address after the instruction or from the
content of a base register. -/
inductive Instruction where
  | add (dr sr : Byte) (operand : Operand)
  | and (dr sr : Byte) (operand : Operand)
  | not (dr sr : Byte)
  | ld (dr : Byte) (offset : Int)
  /-- loads from the address that is stored at `offset` -/
  | ldi (dr : Byte) (offset : Int)
  /-- loads from `offset` cells after the address in `base` -/
  | ldr (dr base : Byte) (offset : Int)
  /-- loads the address at `offset` itself -/
  | lea (dr : Byte) (offset : Int)
  | st (sr : Byte) (offset : Int)
  /-- stores to the address that is stored at `offset` -/
  | sti (sr : Byte) (offset : Int)
  /-- stores to `offset` cells after the address in `base` -/
  | str (sr base : Byte) (offset : Int)
  /-- continues at `offset` if the condition code is among the selected ones -/
  | br (n z p : Bool) (offset : Int)
  | jmp (base : Byte)
  | jsr (offset : Int)
  | jsrr (base : Byte)
  | trap (vector : Byte)
deriving DecidableEq

def Operand.record : Operand → String
  | register r => Record.wrap "Register" (toString r.toNat)
  | immediate value => Record.wrap "Immediate" (toString value)

namespace Instruction

/-! ## Text -/

def operateText (op : String) (dr sr : Byte) : String :=
  Record.fields "Operate" [("op", op), ("dr", toString dr.toNat), ("sr1", toString sr.toNat)]

def pcRelativeText (op : String) (reg : Byte) (offset : Int) : String :=
  Record.fields "PcRelative"
    [("op", op), ("reg", toString reg.toNat), ("pc_offset", toString offset)]

def baseOffsetText (op : String) (reg base : Byte) (offset : Int) : String :=
  Record.fields "BaseOffset"
    [("op", op), ("reg", toString reg.toNat), ("base_r", toString base.toNat),
      ("offset", toString offset)]

/-- JMP has neither a register besides its base nor an offset; both are written as 0. -/
def record : Instruction → String
  | add dr sr operand => operateText (Record.wrap "Add" operand.record) dr sr
  | and dr sr operand => operateText (Record.wrap "And" operand.record) dr sr
  | not dr sr => operateText "Not" dr sr
  | ld dr offset => pcRelativeText "Ld" dr offset
  | ldi dr offset => pcRelativeText "Ldi" dr offset
  | lea dr offset => pcRelativeText "Lea" dr offset
  | st sr offset => pcRelativeText "St" sr offset
  | sti sr offset => pcRelativeText "Sti" sr offset
  | ldr dr base offset => baseOffsetText "Ldr" dr base offset
  | str sr base offset => baseOffsetText "Str" sr base offset
  | jmp base => baseOffsetText "Jmp" 0 base 0
  | br n z p offset =>
    Record.fields "Branch"
      [("n", Record.bool n), ("z", Record.bool z), ("p", Record.bool p),
        ("pc_offset", toString offset)]
  | jsr offset => Record.wrap "Subroutine" (Record.wrap "PcOffset" (toString offset))
  | jsrr base => Record.wrap "Subroutine" (Record.wrap "BaseRegister" (toString base.toNat))
  | trap vector => Record.fields "Trap" [("vector", toString vector.toNat)]

end Instruction

end Lc3
