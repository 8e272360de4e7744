import Lc3.Instruction.Lemmas

/-! # Decoding as a function of the word's bits

`Instruction.decode` reads its fields through checked operations. None of the checks fails, so
decoding is a plain function of the bits of the word.

* `Instruction.ofBits`: the instruction that a word holds under an opcode.
* `ofFields_eq_ok`, `decode_eq_ok`: reading the fields gives exactly that instruction.
-/

namespace Lc3
set_option autoImplicit false

/-! ## Bits to instructions -/

/-- The opcode of a word, if its four highest bits have one. -/
def Opcode.ofWord? (word : Word) : Option Opcode :=
  ofCode? ((word.extractLsb' 12 4).setWidth 8)

namespace Instruction

/-- The register number in the three bits from bit `low` on, bits counted from 0. -/
def registerAt (word : Word) (low : Nat) : Byte :=
  (word.extractLsb' low 3).setWidth 8

/-- The lowest `width` bits as a two's complement number. -/
def lowSigned (word : Word) (width : Nat) : Int :=
  (word.extractLsb' 0 width).toInt

def operandBits (word : Word) : Operand :=
  if word.getLsbD 5 then .immediate (lowSigned word 5) else .register (registerAt word 0)

/-- The instruction that `word` holds under an opcode, without any check. -/
def ofBits (word : Word) : Opcode → Instruction
  | .add => .add (registerAt word 9) (registerAt word 6) (operandBits word)
  | .and => .and (registerAt word 9) (registerAt word 6) (operandBits word)
  | .not => .not (registerAt word 9) (registerAt word 6)
  | .ld => .ld (registerAt word 9) (lowSigned word 9)
  | .ldi => .ldi (registerAt word 9) (lowSigned word 9)
  | .lea => .lea (registerAt word 9) (lowSigned word 9)
  | .st => .st (registerAt word 9) (lowSigned word 9)
  | .sti => .sti (registerAt word 9) (lowSigned word 9)
  | .ldr => .ldr (registerAt word 9) (registerAt word 6) (lowSigned word 6)
  | .str => .str (registerAt word 9) (registerAt word 6) (lowSigned word 6)
  | .jmp => .jmp (registerAt word 6)
  | .br => .br (word.getLsbD 11) (word.getLsbD 10) (word.getLsbD 9) (lowSigned word 9)
  | .jsr =>
    if word.getLsbD 11 then .jsr (lowSigned word 11) else .jsrr (registerAt word 6)
  | .trap => .trap (word.extractLsb' 0 8)

/-! ## Reading fields never fails -/

theorem base_eq_ok (word : Word) : Field.base word = .ok (registerAt word 6) :=
  source_eq_ok word

theorem ofFields_eq_ok (word : Word) (op : Opcode) : ofFields word op = .ok (ofBits word op) := by
  have flag : ∀ position, 0 < position → position ≤ 16 →
      Field.flag word position = .ok (word.getLsbD (position - 1)) :=
    fun position h0 h1 => Field.flag_eq_ok h0 h1
  have o6 := offset_eq_ok word 6 (by decide) (by decide)
  have o9 := offset_eq_ok word 9 (by decide) (by decide)
  have o11 := offset_eq_ok word 11 (by decide) (by decide)
  have f10 := flag 10 (by decide) (by decide)
  have f11 := flag 11 (by decide) (by decide)
  have f12 := flag 12 (by decide) (by decide)
  cases op <;> simp only [ofFields, destination_eq_ok, source_eq_ok, base_eq_ok, trapVector_eq_ok,
    operandOf_eq_ok, o6, o9, o11, f10, f11, f12]
  case jsr =>
    simp only [ofBits]
    cases word.getLsbD 11 <;> rfl
  case trap => exact congrArg (fun v => Except.ok (trap v)) (BitVec.setWidth_eq _)
  all_goals rfl

theorem decode_eq_ok (word : Word) :
    decode word = .ok ((Opcode.ofWord? word).map (ofBits word)) := by
  unfold decode Opcode.ofWord?
  rw [opcode_eq_ok]
  cases hc : Opcode.ofCode? ((word.extractLsb' 12 4).setWidth 8) with
  | none =>
    simp only [bind, Except.bind, hc]
    rfl
  | some op =>
    simp only [bind, Except.bind, hc, ofFields_eq_ok]
    rfl

end Instruction

end Lc3
