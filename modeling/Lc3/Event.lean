import Lc3.Error
import Lc3.Instruction.Basic
import Lc3.Trap.Standard

/-! # Events

What a machine reports while it works, in the order in which it happens.
-/

namespace Lc3
set_option autoImplicit false

/-- Something that a machine reports. -/
inductive Event where
  | loadedBlock (address : Word) (words : Nat)
  /-- the word of the instruction at `address` is executed -/
  | execute (address word : Word) (decoded : Instruction)
  /-- the TRAP at `address` calls for a service -/
  | invokeTrap (vector : Byte) (known : Option StandardTrap) (address : Word)
  /-- the word of the instruction at `address` was not executed -/
  | instructionFailed (address word : Word) (error : ExecutionError)
  /-- a run was stopped by a service after `steps` instructions -/
  | halted (steps : Nat) (pc : Word)
  /-- a run has executed as many instructions as it may -/
  | limitReached (steps : Nat)
deriving DecidableEq

namespace Event

inductive Level where
  | warn
  | debug
  | trace
deriving DecidableEq

def Level.name : Level → String
  | warn => "WARN"
  | debug => "DEBUG"
  | trace => "TRACE"

def level : Event → Level
  | loadedBlock .. => .debug
  | execute .. => .trace
  | invokeTrap .. => .debug
  | instructionFailed .. => .warn
  | halted .. => .debug
  | limitReached .. => .debug

def message : Event → String
  | loadedBlock .. => "loaded block"
  | execute .. => "execute"
  | invokeTrap .. => "invoke trap"
  | instructionFailed .. => "instruction failed"
  | halted .. => "halted"
  | limitReached .. => "instruction limit reached"

/-- The fields of an event by name, each as text. -/
def fields : Event → List (String × String)
  | loadedBlock address words =>
    [("address", toString address.toNat), ("words", toString words)]
  | execute address word decoded =>
    [("address", toString address.toNat), ("word", toString word.toNat),
      ("decoded", decoded.record)]
  | invokeTrap vector known address =>
    [("vector", toString vector.toNat), ("known", Record.optional (known.map (·.name))),
      ("address", toString address.toNat)]
  | instructionFailed address word error =>
    [("address", toString address.toNat), ("word", toString word.toNat),
      ("error", error.message)]
  | halted steps pc => [("steps", toString steps), ("pc", toString pc.toNat)]
  | limitReached steps => [("steps", toString steps)]

end Event

end Lc3
