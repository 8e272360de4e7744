import Lc3.Word

/-! # Opcodes

The four highest bits of an instruction word. Fourteen of the sixteen values are instructions;
8 (return from interrupt) and 13 (reserved) are not.
-/

namespace Lc3
set_option autoImplicit false

inductive Opcode where
  | br
  | add
  | ld
  | st
  | jsr
  | and
  | ldr
  | str
  | not
  | ldi
  | sti
  | jmp
  | lea
  | trap
deriving DecidableEq

namespace Opcode

/-- The opcode of a number, if it has one. -/
def ofCode? (code : Byte) : Option Opcode :=
  match code.toNat with
  | 0x0 => some .br
  | 0x1 => some .add
  | 0x2 => some .ld
  | 0x3 => some .st
  | 0x4 => some .jsr
  | 0x5 => some .and
  | 0x6 => some .ldr
  | 0x7 => some .str
  | 0x9 => some .not
  | 0xA => some .ldi
  | 0xB => some .sti
  | 0xC => some .jmp
  | 0xE => some .lea
  | 0xF => some .trap
  | _ => none

def code : Opcode → Byte
  | br => 0x0
  | add => 0x1
  | ld => 0x2
  | st => 0x3
  | jsr => 0x4
  | and => 0x5
  | ldr => 0x6
  | str => 0x7
  | not => 0x9
  | ldi => 0xA
  | sti => 0xB
  | jmp => 0xC
  | lea => 0xE
  | trap => 0xF

def name : Opcode → String
  | br => "Br"
  | add => "Add"
  | ld => "Ld"
  | st => "St"
  | jsr => "Jsr"
  | and => "And"
  | ldr => "Ldr"
  | str => "Str"
  | not => "Not"
  | ldi => "Ldi"
  | sti => "Sti"
  | jmp => "Jmp"
  | lea => "Lea"
  | trap => "Trap"

theorem ofCode?_code (op : Opcode) : ofCode? op.code = some op := by
  cases op <;> rfl

theorem ofCode?_eq_some_iff {code : Byte} {op : Opcode} :
    ofCode? code = some op ↔ code = op.code := by
  constructor
  · intro h
    have bound : code.toNat < 16 := by
      refine Nat.lt_of_not_le fun hge => ?_
      unfold ofCode? at h
      split at h
      case h_15 => cases h
      all_goals omega
    have low : ∀ n, n < 16 → ofCode? (BitVec.ofNat 8 n) = some op →
        BitVec.ofNat 8 n = op.code := by
      cases op <;> decide
    simpa using low code.toNat bound (by simpa using h)
  · rintro rfl
    exact ofCode?_code op

end Opcode

end Lc3
