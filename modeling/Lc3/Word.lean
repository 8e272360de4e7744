/-! # Words and bytes

The two sizes of data in the machine.

* `Word`: 16 bits, the content of a memory cell or register and at the same time an address, so
  that every word is the address of exactly one cell.
* `Byte`: 8 bits, the size of register numbers and trap vectors as callers hand them in. A
  register number is not bounded by its type: the register file checks it.

Quantities that are integers rather than bit patterns (offsets, immediates, effective addresses
before the range check, counts) are `Int` and `Nat`.
-/

namespace Lc3
set_option autoImplicit false

/-- A machine word. `toNat` reads it as an address, `toInt` as a signed number. -/
abbrev Word := BitVec 16

/-- A register number or a trap vector. -/
abbrev Byte := BitVec 8

end Lc3
