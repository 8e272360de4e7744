import Lc3.Error

/-! # Bit fields of a word

A field is a run of `count` contiguous bits whose lowest bit stands at `position`; positions count
from 1 for the least significant bit up to 16.

* `Field.unsigned`: the field as an unsigned number, with the conditions under which a field
  exists checked in a fixed order: it has bits, then it lies inside of the word.
* `Field.signExtend`, `Field.signed`: two's complement fields of 1 to 15 bits.
* `Field.byte`, `Field.flag`: fields of at most 8 bits and single bits.
* The fields that instruction words are made of, from `Field.opcode` on. Their counts and
  positions are literals, so none of the checks fails for them.
-/

namespace Lc3.Field
set_option autoImplicit false

/-! ## Fields anywhere in a word -/

/-- The `count` bits of `word` from `position` upwards, as an unsigned number below `2 ^ count`. -/
def unsigned (word : Word) (count position : Nat) : Except Misuse Word :=
  if count = 0 ∨ position = 0 then
    .error (.emptyField count position)
  else if count + position - 1 > 16 then
    .error (.wideField count position)
  else
    .ok ((word.extractLsb' (position - 1) count).setWidth 16)

/-- Copies bit `width` (counted from 1) of `bits` into all bits above it if it is set. If it is
clear nothing changes: bits above the field that were set before stay set. -/
def signExtend (bits : Word) (width : Nat) : Except Misuse Word :=
  if 0 < width ∧ width < 16 then
    .ok (if bits.getLsbD (width - 1) then bits ||| (0xFFFF#16 <<< width) else bits)
  else
    .error .fieldWidth

def signed (word : Word) (count position : Nat) : Except Misuse Int := do
  let bits ← unsigned word count position
  let extended ← signExtend bits count
  return extended.toInt

/-- The field as a byte; `purpose` says in the failure what the field was read for. -/
def byte (word : Word) (count position : Nat) (purpose : String) : Except Misuse Byte := do
  let value ← unsigned word count position
  if value.toNat < 256 then
    return value.setWidth 8
  else
    .error (.byteOverflow purpose)

def flag (word : Word) (position : Nat) : Except Misuse Bool := do
  let value ← unsigned word 1 position
  return value == 1

/-! ## Fields of instruction words -/

def opcode (word : Word) : Except Misuse Byte :=
  byte word 4 13 "Error parsing op_code"

/-- Bits 12 to 10: the register an instruction writes, or the one a store reads. -/
def destination (word : Word) : Except Misuse Byte :=
  byte word 3 10 "Error parsing dr"

/-- Bits 9 to 7: the first source register. -/
def source (word : Word) : Except Misuse Byte :=
  byte word 3 7 "Error parsing sr1"

/-- The base register of JMP, JSRR, LDR and STR stands where the first source register does. -/
def base (word : Word) : Except Misuse Byte :=
  source word

/-- Bits 3 to 1: the second source register of ADD and AND. -/
def secondSource (word : Word) : Except Misuse Byte :=
  byte word 3 1 "Error parsing sr2"

/-- Bit 6: whether the second operand of ADD and AND is an immediate value. -/
def immediateMode (word : Word) : Except Misuse Bool :=
  flag word 6

/-- Bits 5 to 1 as a signed number: the immediate operand. -/
def immediate (word : Word) : Except Misuse Int :=
  signed word 5 1

/-- The lowest `width` bits as a signed number: an offset to PC or to a base register. -/
def offset (word : Word) (width : Nat) : Except Misuse Int :=
  signed word width 1

/-- Bits 8 to 1: the vector of a TRAP. -/
def trapVector (word : Word) : Except Misuse Byte :=
  byte word 8 1 "Error parsing trapvect8"

/-- The fields of an instruction word in binary: opcode, destination and the lowest nine bits. -/
def layout (word : Word) : Except Misuse String := do
  let op ← opcode word
  let dr ← destination word
  let low ← unsigned word 9 1
  return "Op: " ++ Numeral.binary 4 op.toNat ++ ", DR: " ++ Numeral.binary 3 dr.toNat
    ++ ", PC_Off: " ++ Numeral.binary 9 low.toNat

end Lc3.Field
