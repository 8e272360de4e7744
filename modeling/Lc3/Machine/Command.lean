import Lc3.Machine.Run

/-! # Commands

The operations on a machine as data, so that a whole session with a machine is a list of commands.
`Command.perform` carries out one of them and answers.
-/

namespace Lc3
set_option autoImplicit false

inductive Command where
  | reset
  | load (address : Word) (words : List Word)
  | loadImage (image : List Word)
  | step
  | execute (word : Word)
  | run
  | runLimit (max : Nat)
  | setPc (word : Word)
  | setRegister (r : Byte) (word : Word)
  | edit (e : Memory.Edit)

inductive Answer where
  | done
  | refused (error : LoadError)
  | stepped (outcome : Outcome)
  | ran (outcome : RunOutcome)
  | failed (error : ExecutionError)

structure Performed (σ : Type) where
  answer : Answer
  machine : Machine σ
  events : Array Event := #[]

variable {σ : Type}

/-- The answer of a load; a refused one leaves the machine `m` as it was. -/
def Performed.ofLoad (m : Machine σ) : Except LoadError (Loaded σ) → Performed σ
  | .ok loaded => { answer := .done, machine := loaded.machine, events := #[loaded.event] }
  | .error e => { answer := .refused e, machine := m }

/-- The answer of a change of the memory; a refused one leaves the machine `m` as it was. -/
def Performed.ofEdit (m : Machine σ) : Except LoadError (Machine σ) → Performed σ
  | .ok edited => { answer := .done, machine := edited }
  | .error e => { answer := .refused e, machine := m }

def Performed.ofStep (step : Step σ) : Performed σ where
  answer :=
    match step.result with
    | .ok outcome => .stepped outcome
    | .error e => .failed e
  machine := step.machine
  events := step.events.toArray

def Performed.ofRun (run : Run σ) : Performed σ where
  answer :=
    match run.result with
    | .ok outcome => .ran outcome
    | .error e => .failed e
  machine := run.machine
  events := run.events

/-- Carries out a command; a run without a limit gets `fuel`, and `none` says that it was not
enough. -/
def Command.perform [TrapHandler σ] (fuel : Nat) (m : Machine σ) :
    Command → Except Misuse (Option (Performed σ))
  | reset => return some { answer := .done, machine := m.reset }
  | load a ws => return some (.ofLoad m (m.load a ws))
  | loadImage image => return some (.ofLoad m (m.loadImage image))
  | step => return some (.ofStep (← m.step))
  | execute word => return some (.ofStep (← m.execute word))
  | run => return (← m.run fuel).map .ofRun
  | runLimit max => return some (.ofRun (← m.runLimit max))
  | setPc w => return some { answer := .done, machine := m.setPc w }
  | setRegister r w => return some { answer := .done, machine := ← m.setRegister r w }
  | edit e => return some (.ofEdit m (m.edit e))

/-- Carries out commands in order; the answers are dropped. -/
def Command.performAll [TrapHandler σ] (fuel : Nat) :
    List Command → Machine σ → Except Misuse (Option (Machine σ))
  | [], m => .ok (some m)
  | command :: commands, m => do
    match ← command.perform fuel m with
    | none => return none
    | some performed => performAll fuel commands performed.machine

end Lc3
