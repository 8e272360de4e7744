import Lc3.Instruction.Decode
import Lc3.Instruction.Effect
import Lc3.Machine.Basic

/-! # Executing an instruction

`Machine.execute` executes one word as if it stood at PC, and `Machine.step` the word that does
stand there. PC moves behind the instruction before the instruction takes effect.

* The result is a `Step`: how the instruction ended, the machine afterwards and the events.
* A step is atomic: if it fails, registers, PC, condition code and memory are those before it.
  Instructions other than TRAP compute their whole effect before they change anything. A TRAP saves
  the registers and opens the undo log of the memory before it calls the service, and goes back to
  them if the service fails.
* Two things are outside of that. The state of the trap handler is never taken back. And a service
  that puts another memory in place of the one it was given has thrown the log away with it: a
  failure rolls back what the log of the other memory has recorded, which is nothing if that memory
  is new.
-/

namespace Lc3
set_option autoImplicit false

inductive Outcome where
  | proceed
  | halted
deriving DecidableEq

def Verdict.outcome : Verdict → Outcome
  | resume => .proceed
  | halt => .halted

structure Step (σ : Type) where
  result : Except ExecutionError Outcome
  machine : Machine σ
  events : List Event

/-- Adds the report of a failure to the events of the instruction `word` at `address`. -/
def Step.reportFailure {σ : Type} (step : Step σ) (address word : Word) : Step σ :=
  match step.result with
  | .ok _ => step
  | .error e => { step with events := step.events ++ [.instructionFailed address word e] }

namespace Machine

variable {σ : Type} [TrapHandler σ]

/-- Calls the service of `vector` for the TRAP at PC. The service gets the registers `entry`, in
which R7 is the return address, and leaves the address to continue at in R7. -/
def serve (m : Machine σ) (vector : Byte) (entry : RegisterFile) : Except Misuse (Step σ) := do
  let address := m.state.regs.pc
  let served ← TrapHandler.invoke vector m.handler { regs := entry, mem := m.state.mem.openLog }
  let left := served.state
  let events := [.invokeTrap vector (StandardTrap.ofVector? vector) address]
  match served.reply with
  | .ok verdict =>
    let state : State :=
      { regs := { left.regs with pc := left.regs.link }, mem := left.mem.closeLog }
    return { result := .ok verdict.outcome, machine := { state, handler := served.server }, events }
  | .error e =>
    let state : State := { regs := m.state.regs, mem := left.mem.rollBack }
    return { result := .error (e.toExecutionError vector address),
             machine := { state, handler := served.server }, events }

/-- Executes the instruction at PC, the next one being at `next`. -/
def carryOut (m : Machine σ) (next : Word) (i : Instruction) : Except Misuse (Step σ) :=
  match i.effect { m.state.regs with pc := next } m.state.mem with
  | .error (.misuse cause) => .error cause
  | .error (.execution e) => .ok { result := .error e, machine := m, events := [] }
  | .ok effect =>
    match effect.service with
    | some vector => m.serve vector effect.regs
    | none =>
      .ok { result := .ok .proceed, machine := { m with state := m.state.commit effect },
            events := [] }

/-- Executes `word` at PC without the report of a failure. There has to be an address after PC
whatever the word is, then the word has to be an instruction. -/
def attempt (m : Machine σ) (word : Word) : Except Misuse (Step σ) :=
  match effectiveAddress m.pc 1 with
  | .error e => .ok { result := .error e, machine := m, events := [] }
  | .ok next => do
    match ← Instruction.decode word with
    | none => return { result := .error (.illegalOpcode m.pc word), machine := m, events := [] }
    | some i =>
      let event : Event := .execute m.pc word i
      let step ← m.carryOut next i
      return { step with events := event :: step.events }

/-- Executes `word` as if it stood at PC. -/
def execute (m : Machine σ) (word : Word) : Except Misuse (Step σ) := do
  let address := m.pc
  let step ← m.attempt word
  return step.reportFailure address word

/-- Executes the word at PC. -/
def step (m : Machine σ) : Except Misuse (Step σ) :=
  m.execute (m.state.mem.read m.pc)

end Machine

end Lc3
