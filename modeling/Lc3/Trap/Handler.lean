import Lc3.State

/-! # Trap handlers

Whoever answers TRAP instructions is a trap handler: a value with a state of its own that is given
the vector, the registers and the memory and may change all of them. It ends with a `Reply`: go on,
stop the machine, or a failure. What becomes of the registers and the memory after a failure is the
machine's decision; the handler's own state always stays as the handler left it.
-/

namespace Lc3
set_option autoImplicit false

/-- What the machine does after a service that completed. -/
inductive Verdict where
  /-- continues at the address in R7 -/
  | resume
  | halt
deriving DecidableEq

abbrev Reply := Except ServiceError Verdict

/-- The end of a service: the reply, the one who served with its own state afterwards, and the
registers and memory that it left. -/
structure Served (σ : Type) where
  reply : Reply
  server : σ
  state : State

/-- Types whose values answer TRAP instructions. -/
class TrapHandler (σ : Type) where
  /-- Serves the trap `vector`. R7 holds the return address, and may be changed to continue
  somewhere else. -/
  invoke (vector : Byte) (handler : σ) (s : State) : Except Misuse (Served σ)

def Verdict.name : Verdict → String
  | resume => "Resume"
  | halt => "Halt"

end Lc3
