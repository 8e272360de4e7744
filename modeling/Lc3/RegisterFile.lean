import Lc3.Condition
import Lc3.Error

/-! # The register file

Eight general purpose registers R0 to R7, the program counter and the condition code.

* `read` and `write` take a register number as a byte and refuse numbers above 7.
* `writeResult` also sets the condition code, from the written value.
* `link` and `withLink` are R7, where calls and traps keep the return address.
-/

namespace Lc3
set_option autoImplicit false

structure RegisterFile where
  general : Vector Word 8
  pc : Word
  condition : Condition
deriving DecidableEq

namespace RegisterFile

/-- All registers zero, with the condition code that fits a zero. -/
def initial : RegisterFile where
  general := Vector.replicate 8 0
  pc := 0
  condition := .zero

/-! ## Access by number -/

def read (regs : RegisterFile) (r : Byte) : Except Misuse Word :=
  if h : r.toNat < 8 then .ok (regs.general[r.toNat]) else .error (.readRegister r)

/-- Puts `w` into register number `r` and leaves the condition code alone. -/
def write (regs : RegisterFile) (r : Byte) (w : Word) : Except Misuse RegisterFile :=
  if h : r.toNat < 8 then
    .ok { regs with general := regs.general.set r.toNat w h }
  else
    .error (.writeRegister r)

/-- Puts `w` into register number `r` and sets the condition code to its sign. -/
def writeResult (regs : RegisterFile) (r : Byte) (w : Word) : Except Misuse RegisterFile :=
  return { ← regs.write r w with condition := .ofWord w }

/-! ## The link register -/

/-- R7, the return address of the last call. -/
def link (regs : RegisterFile) : Word :=
  regs.general[7]

def withLink (regs : RegisterFile) (w : Word) : RegisterFile :=
  { regs with general := regs.general.set 7 w }

/-! ## Text -/

/-- A register's content in hexadecimal and, in parentheses, as a signed number. -/
def wordText (w : Word) : String :=
  Numeral.hex 4 w.toNat ++ " (" ++ toString w.toInt ++ ")"

/-- All registers on one line, the general purpose registers last and in order. -/
def text (regs : RegisterFile) : String :=
  "PC: " ++ Numeral.hex 4 regs.pc.toNat ++ ", COND: " ++ regs.condition.name
    ++ String.join (regs.general.toList.zipIdx.map fun (w, i) => s!", R{i}: " ++ wordText w)

/-! ## Laws -/

theorem read_eq_ok {regs : RegisterFile} {r : Byte} (h : r.toNat < 8) :
    regs.read r = .ok regs.general[r.toNat] := by
  simp [read, h]

theorem read_eq_error {regs : RegisterFile} {r : Byte} (h : 8 ≤ r.toNat) :
    regs.read r = .error (.readRegister r) := by
  simp [read, Nat.not_lt.2 h]

theorem write_eq_ok {regs : RegisterFile} {r : Byte} (w : Word) (h : r.toNat < 8) :
    regs.write r w = .ok { regs with general := regs.general.set r.toNat w h } := by
  simp [write, h]

theorem write_eq_error {regs : RegisterFile} {r : Byte} (w : Word) (h : 8 ≤ r.toNat) :
    regs.write r w = .error (.writeRegister r) := by
  simp [write, Nat.not_lt.2 h]

@[simp] theorem link_withLink (regs : RegisterFile) (w : Word) : (regs.withLink w).link = w := by
  simp [link, withLink]

@[simp] theorem pc_withLink (regs : RegisterFile) (w : Word) : (regs.withLink w).pc = regs.pc := rfl

@[simp] theorem condition_withLink (regs : RegisterFile) (w : Word) :
    (regs.withLink w).condition = regs.condition := rfl

end RegisterFile

end Lc3
