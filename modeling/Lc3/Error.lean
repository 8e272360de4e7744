import Lc3.Word
import Lc3.Numeral
import Lc3.Record

/-! # What can go wrong

Every failure is a cause with its data; its wording is one function `message`, and `record`
writes the cause with its fields for diagnostics.

* `Misuse`: a call outside of an operation's contract, such as a register number above 7.
* `ExecutionError`: an instruction that cannot be executed.
* `LoadError`: a block of words that cannot be loaded.
* `ServiceError`: the failure that a trap service routine reports.
* `Fault`: a misuse or an execution error, the failures of a single instruction.
-/

namespace Lc3
set_option autoImplicit false

/-! ## Misuse -/

inductive Misuse where
  /-- a bit field without bits, or at position 0 (positions count from 1) -/
  | emptyField (count position : Nat)
  | wideField (count position : Nat)
  /-- a sign extension from a width that is not between 1 and 15 -/
  | fieldWidth
  /-- a bit field read as a byte whose value exceeds 255 -/
  | byteOverflow (purpose : String)
  | readRegister (r : Byte)
  | writeRegister (r : Byte)
deriving DecidableEq

namespace Misuse

def message : Misuse → String
  | emptyField count position => s!"empty field: count {count}, position {position}"
  | wideField count position =>
    s!"field of {count} bits at position {position} does not fit into u16"
  | fieldWidth => "invalid field width"
  | byteOverflow purpose => purpose ++ ": TryFromIntError(PosOverflow)"
  | readRegister r => s!"Invalid general purpose register get: {r.toNat}"
  | writeRegister r => s!"Invalid general purpose register set: {r.toNat}"

end Misuse

/-! ## Execution -/

inductive ExecutionError where
  /-- the opcode of the word at `address` has no instruction -/
  | illegalOpcode (address instruction : Word)
  /-- an effective address, as an integer, outside of the address space -/
  | addressOutOfRange (address : Int)
  /-- no service routine answers the trap `vector` called at `address` -/
  | unhandledTrap (vector : Byte) (address : Word)
  | trapRoutineFailed (vector : Byte)
deriving DecidableEq

namespace ExecutionError

/-- An effective address is written as its 32-bit two's complement pattern, so a negative one
shows its high bits. -/
def message : ExecutionError → String
  | illegalOpcode address instruction =>
    "Illegal opcode in instruction " ++ Numeral.hex 4 instruction.toNat ++ " at address "
      ++ Numeral.hex 4 address.toNat
  | addressOutOfRange address =>
    "Effective address " ++ Numeral.hex 1 (BitVec.ofInt 32 address).toNat
      ++ " is outside of the 16-bit address space"
  | unhandledTrap vector address =>
    "No service routine registered for trap vector " ++ Numeral.hex 2 vector.toNat
      ++ " called at " ++ Numeral.hex 4 address.toNat
  | trapRoutineFailed vector =>
    "Service routine for trap vector " ++ Numeral.hex 2 vector.toNat ++ " failed"

def record : ExecutionError → String
  | illegalOpcode address instruction =>
    Record.fields "IllegalOpcode"
      [("address", toString address.toNat), ("instruction", toString instruction.toNat)]
  | addressOutOfRange address =>
    Record.fields "AddressOutOfRange" [("address", toString address)]
  | unhandledTrap vector address =>
    Record.fields "UnhandledTrap"
      [("vector", toString vector.toNat), ("address", toString address.toNat)]
  | trapRoutineFailed vector =>
    Record.fields "TrapRoutineFailed" [("vector", toString vector.toNat)]

end ExecutionError

/-! ## Loading -/

inductive LoadError where
  | exceedsAddressSpace (address : Word) (length : Nat)
  /-- an image without the word that says where it belongs -/
  | missingOrigHeader
deriving DecidableEq

namespace LoadError

def message : LoadError → String
  | exceedsAddressSpace address length =>
    s!"Block of {length} words at " ++ Numeral.hex 4 address.toNat
      ++ " does not fit into the 16-bit address space"
  | missingOrigHeader => "Program is missing valid .ORIG header"

def record : LoadError → String
  | exceedsAddressSpace address length =>
    Record.fields "ExceedsAddressSpace"
      [("address", toString address.toNat), ("length", toString length)]
  | missingOrigHeader => "MissingOrigHeader"

end LoadError

/-! ## Service routines -/

inductive ServiceError where
  | unregistered
  | failed
deriving DecidableEq

namespace ServiceError

def message : ServiceError → String
  | unregistered => "No service routine registered for the trap vector"
  | failed => "Service routine failed"

def record : ServiceError → String
  | unregistered => "Unregistered"
  | failed => "Failed"

/-- The error of a TRAP instruction at `address` whose service ended with this failure. -/
def toExecutionError (vector : Byte) (address : Word) : ServiceError → ExecutionError
  | unregistered => .unhandledTrap vector address
  | failed => .trapRoutineFailed vector

end ServiceError

/-! ## Faults of a single instruction -/

/-- The failures of a single instruction: it was called with register numbers that do not exist,
or it cannot be executed. -/
inductive Fault where
  | misuse (cause : Misuse)
  | execution (error : ExecutionError)
deriving DecidableEq

def Fault.ofMisuse {α : Type} (result : Except Misuse α) : Except Fault α :=
  result.mapError .misuse

def Fault.ofExecution {α : Type} (result : Except ExecutionError α) : Except Fault α :=
  result.mapError .execution

end Lc3
