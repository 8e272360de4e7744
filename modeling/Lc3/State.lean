import Lc3.RegisterFile
import Lc3.Memory.Basic

/-! # The state of the machine

Registers and memory: what instructions and service routines work on.
-/

namespace Lc3
set_option autoImplicit false

/-- What a program can see and change. -/
structure State where
  regs : RegisterFile
  mem : Memory

namespace State

def initial : State where
  regs := .initial
  mem := .zeroed

def text (s : State) : String :=
  "Registers: " ++ s.regs.text ++ ", " ++ s.mem.text

end State

end Lc3
