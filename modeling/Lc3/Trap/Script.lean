import Lc3.Instruction.Effect
import Lc3.Trap.Table

/-! # Scripted service routines

A service routine given as data: a list of actions on registers and memory, then a fixed reply. A
routine counts its calls modulo `2 ^ 16`; the count is its private state, goes up at the start of
every call, and is not undone when a call fails.
-/

namespace Lc3
set_option autoImplicit false

/-- An action of a scripted routine. Register numbers are checked when the action runs. -/
inductive Action where
  | set (r : Byte) (word : Word)
  | move (target source : Byte)
  | setPc (word : Word)
  | getPc (r : Byte)
  /-- adds a number to a register as ADD does, with the condition code -/
  | add (dr sr : Byte) (value : Int)
  | poke (address word : Word)
  | loadWord (target address : Byte)
  | storeWord (address source : Byte)
  /-- loads a block into memory; one that does not fit fails the routine -/
  | load (address : Word) (words : List Word)
  | resetMemory
  /-- puts a new zeroed memory in place of the memory -/
  | newMemory
  | newRegisters
  | count (r : Byte)
  | failIfZero (r : Byte)
  /-- fails from the given call on -/
  | failFromCall (n : Nat)
  /-- stops the machine if a register is negative -/
  | haltIfNegative (r : Byte)

inductive Progress where
  | next (s : State)
  | done (reply : Reply) (s : State)

def Action.perform (call : Word) (s : State) : Action → Except Misuse Progress
  | set r word => do
    return .next { s with regs := ← s.regs.write r word }
  | move target source => do
    let word ← s.regs.read source
    return .next { s with regs := ← s.regs.write target word }
  | setPc word => return .next { s with regs := { s.regs with pc := word } }
  | getPc r => do
    return .next { s with regs := ← s.regs.write r s.regs.pc }
  | add dr sr value => do
    return .next { s with regs := ← s.regs.combine (· + ·) dr sr (.immediate value) }
  | poke address word => return .next { s with mem := s.mem.write address word }
  | loadWord target address => do
    let a ← s.regs.read address
    return .next { s with regs := ← s.regs.write target (s.mem.read a) }
  | storeWord address source => do
    let a ← s.regs.read address
    let word ← s.regs.read source
    return .next { s with mem := s.mem.write a word }
  | load address words =>
    match s.mem.load address words with
    | .ok mem => return .next { s with mem }
    | .error _ => return .done (.error .failed) s
  | resetMemory => return .next { s with mem := s.mem.clear }
  | newMemory => return .next { s with mem := .zeroed }
  | newRegisters => return .next { s with regs := .initial }
  | count r => do
    return .next { s with regs := ← s.regs.write r call }
  | failIfZero r => do
    if (← s.regs.read r) = 0 then
      return .done (.error .failed) s
    else
      return .next s
  | failFromCall n =>
    if call.toNat < n then return .next s else return .done (.error .failed) s
  | haltIfNegative r => do
    if (← s.regs.read r).toInt < 0 then
      return .done (.ok .halt) s
    else
      return .next s

/-- Performs actions in order until one ends the routine; after all of them it ends with `reply`. -/
def Action.performAll (call : Word) (reply : Reply) :
    List Action → State → Except Misuse (Reply × State)
  | [], s => .ok (reply, s)
  | action :: actions, s => do
    match ← action.perform call s with
    | .next s => performAll call reply actions s
    | .done reply s => return (reply, s)

/-- A routine given by its actions and its reply, with the number of its calls so far. -/
structure ScriptedRoutine where
  actions : List Action
  reply : Reply
  calls : Word := 0

instance : ServiceRoutine ScriptedRoutine where
  call routine s := do
    let call := routine.calls + 1
    let (reply, s) ← Action.performAll call routine.reply routine.actions s
    return { reply, server := { routine with calls := call }, state := s }

end Lc3
