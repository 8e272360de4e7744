import Lc3.Machine.Step

/-! # Runs

A run executes one instruction after the other, each fetched from the memory that the one before it
left, until a service stops the machine or an instruction fails.

* `Machine.iterate`: at most a given number of steps, with an account of them.
* `Machine.runLimit`: the same as a run that reports when it stops at its limit.
* `Machine.run`: a run without a limit. A run need not end, so it is given fuel and answers `none`
  when that is used up; an answer is the same for any larger amount of fuel.
-/

namespace Lc3
set_option autoImplicit false

inductive Ending where
  /-- all steps allowed were made and the machine can go on -/
  | unfinished
  /-- the last step stopped the machine -/
  | halted
  /-- the step after the last one failed -/
  | failed (error : ExecutionError)
deriving DecidableEq

structure Trace (σ : Type) where
  ending : Ending
  steps : Nat
  machine : Machine σ
  events : Array Event

inductive RunOutcome where
  | halted (steps : Nat)
  | limitReached (steps : Nat)
deriving DecidableEq

/-- How a run ended, the machine afterwards and all events in order. -/
structure Run (σ : Type) where
  result : Except ExecutionError RunOutcome
  machine : Machine σ
  events : Array Event

/-- The run of a series of steps that is not continued; the last event says why it ended, unless
it failed. -/
def Trace.toRun {σ : Type} (t : Trace σ) : Run σ :=
  match t.ending with
  | .unfinished =>
    { result := .ok (.limitReached t.steps), machine := t.machine,
      events := t.events.push (.limitReached t.steps) }
  | .halted =>
    { result := .ok (.halted t.steps), machine := t.machine,
      events := t.events.push (.halted t.steps t.machine.pc) }
  | .failed e => { result := .error e, machine := t.machine, events := t.events }

namespace Machine

variable {σ : Type} [TrapHandler σ]

/-- At most `n` more steps after `steps` steps that emitted `events`. -/
def iterateFrom (steps : Nat) (events : Array Event) :
    Nat → Machine σ → Except Misuse (Trace σ)
  | 0, machine => .ok { ending := .unfinished, steps, machine, events }
  | n + 1, machine => do
    let step ← machine.step
    let events := events ++ step.events
    match step.result with
    | .ok .proceed => iterateFrom (steps + 1) events n step.machine
    | .ok .halted =>
      return { ending := .halted, steps := steps + 1, machine := step.machine, events }
    | .error e => return { ending := .failed e, steps, machine := step.machine, events }

def iterate (m : Machine σ) (n : Nat) : Except Misuse (Trace σ) :=
  iterateFrom 0 #[] n m

/-- Runs until a service stops the machine, an instruction fails, or `max` instructions were
executed. -/
def runLimit (m : Machine σ) (max : Nat) : Except Misuse (Run σ) := do
  let trace ← m.iterate max
  return trace.toRun

/-- Runs until a service stops the machine or an instruction fails; `none` if `fuel` steps do not
get there. -/
def run (m : Machine σ) (fuel : Nat) : Except Misuse (Option (Run σ)) := do
  let trace ← m.iterate fuel
  match trace.ending with
  | .unfinished => return none
  | .halted | .failed _ => return some trace.toRun

end Machine

end Lc3
