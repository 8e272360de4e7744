import Lc3.Field.Lemmas
import Lc3.Instruction.Decode

/-! # Laws of decoding

Every word is decoded without misuse: the fields of instruction words lie inside of the word, so
`Field.unsigned`, `Field.byte`, `Field.flag` and `Field.signed` never refuse them.

* `source_eq_ok` to `offset_eq_ok`: each field of an instruction word with its value.
* `operandOf_eq_ok`: the second operand of ADD and AND.
-/

namespace Lc3.Instruction
set_option autoImplicit false

theorem source_eq_ok (word : Word) :
    Field.source word = .ok ((word.extractLsb' 6 3).setWidth 8) :=
  Field.byte_eq_ok _ (by decide) (by decide) (by decide) (by decide)

theorem destination_eq_ok (word : Word) :
    Field.destination word = .ok ((word.extractLsb' 9 3).setWidth 8) :=
  Field.byte_eq_ok _ (by decide) (by decide) (by decide) (by decide)

theorem secondSource_eq_ok (word : Word) :
    Field.secondSource word = .ok ((word.extractLsb' 0 3).setWidth 8) :=
  Field.byte_eq_ok _ (by decide) (by decide) (by decide) (by decide)

theorem trapVector_eq_ok (word : Word) :
    Field.trapVector word = .ok ((word.extractLsb' 0 8).setWidth 8) :=
  Field.byte_eq_ok _ (by decide) (by decide) (by decide) (by decide)

theorem opcode_eq_ok (word : Word) :
    Field.opcode word = .ok ((word.extractLsb' 12 4).setWidth 8) :=
  Field.byte_eq_ok _ (by decide) (by decide) (by decide) (by decide)

theorem offset_eq_ok (word : Word) (width : Nat) (h0 : 0 < width) (h1 : width < 16) :
    Field.offset word width = .ok (word.extractLsb' 0 width).toInt :=
  Field.signed_eq_ok h0 h1 (by decide) (by omega)

theorem operandOf_eq_ok (word : Word) :
    operandOf word = .ok (if word.getLsbD 5 then .immediate (word.extractLsb' 0 5).toInt
      else .register ((word.extractLsb' 0 3).setWidth 8)) := by
  have hm : Field.immediateMode word = .ok (word.getLsbD 5) :=
    Field.flag_eq_ok (by decide) (by decide)
  have hi : Field.immediate word = .ok (word.extractLsb' 0 5).toInt :=
    Field.signed_eq_ok (by decide) (by decide) (by decide) (by decide)
  unfold operandOf
  rw [hm, hi, secondSource_eq_ok]
  cases word.getLsbD 5 <;> rfl

end Lc3.Instruction
