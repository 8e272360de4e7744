import Lc3.Proofs.Atomicity
import Lc3.Proofs.Checking

/-! # Who puts back what

A machine works in place. PC moves behind an instruction before it takes effect, a TRAP overwrites
R7 and hands registers and memory to its service, and what has been overwritten when something fails
stays so until it is put back. `Machine.execute` goes on with the machine that it was given, so it
cannot tell who does that. Here the execution of a word is written out change by change, with the
machine at hand when it fails, and shown to end where `execute` says.

* `Workbench`, `Working`: a machine that is worked on, and the changes that are made to it.
* `Working.trap`: saves the registers and opens the log, and goes back to both if the service fails.
* `Working.execute`: sets PC back if anything has failed.
* `Executes.attempt_eq`: what a failure leaves to be put back is PC.
* `execute_inPlace`: the two accounts of an execution agree.
* `inPlace_restores`: so a failure in place leaves registers and cells as they were, if the service
  has only edited the memory.
-/

namespace Lc3
set_option autoImplicit false

/-! ## Working on a machine -/

/-- A machine at work, and what it has reported so far. -/
structure Workbench (σ : Type) where
  machine : Machine σ
  events : List Event

/-- Changes to a machine, one after another. If one of them fails, the machine is left as it is
then. -/
abbrev Working (σ : Type) := EStateM Fault (Workbench σ)

namespace Working
variable {σ : Type}

/-- Works on registers and memory. -/
def onState {α : Type} (changes : InPlace α) : Working σ α := fun w =>
  match changes w.machine.state with
  | .ok a s => .ok a { w with machine := { w.machine with state := s } }
  | .error f s => .error f { w with machine := { w.machine with state := s } }

def onMemory (f : Memory → Memory) : Working σ Unit :=
  onState (modify fun s => { s with mem := f s.mem })

def getRegisters : Working σ RegisterFile :=
  return (← get).machine.state.regs

def setRegisters (regs : RegisterFile) : Working σ Unit :=
  onState (modify fun s => { s with regs })

def report (event : Event) : Working σ Unit :=
  modify fun w => { w with events := w.events ++ [event] }

theorem onState_ok {α : Type} {changes : InPlace α} {w : Workbench σ} {a : α} {s : State}
    (h : changes w.machine.state = .ok a s) :
    onState changes w = .ok a { w with machine := { w.machine with state := s } } := by
  rw [onState, h]

theorem onState_error {α : Type} {changes : InPlace α} {w : Workbench σ} {f : Fault} {s : State}
    (h : changes w.machine.state = .error f s) :
    onState changes w = .error f { w with machine := { w.machine with state := s } } := by
  rw [onState, h]

variable [TrapHandler σ]

/-- Hands registers and memory to the service of `vector`. -/
def call (vector : Byte) : Working σ Reply := fun w =>
  match TrapHandler.invoke vector w.machine.handler w.machine.state with
  | .ok served =>
    .ok served.reply { w with machine := { state := served.state, handler := served.server } }
  | .error cause => .error (.misuse cause) w

/-- After the service of the TRAP at `address`, with the registers that were saved before it. -/
def leave (saved : RegisterFile) (vector : Byte) (address : Word) : Reply → Working σ Outcome
  | .ok verdict => do
    onMemory .closeLog
    onState (InPlace.readRegister 7 >>= InPlace.setPc)
    return verdict.outcome
  | .error e => do
    onMemory .rollBack
    setRegisters saved
    throw (.execution (e.toExecutionError vector address))

/-- The TRAP at `address`, with PC behind it. -/
def trap (vector : Byte) (address : Word) : Working σ Outcome := do
  let saved ← getRegisters
  onState (Instruction.trap vector).inPlace
  report (.invokeTrap vector (StandardTrap.ofVector? vector) address)
  onMemory .openLog
  let reply ← call vector
  leave saved vector address reply

/-- The instruction `i` at `address`, with PC behind it. -/
def carryOut (i : Instruction) (address : Word) : Working σ Outcome :=
  match i.vector? with
  | some vector => trap vector address
  | none => do
    onState i.inPlace
    return .proceed

/-- After `word` at `address` has been decoded, the next instruction being at `next`. -/
def advance (address word next : Word) : Option Instruction → Working σ Outcome
  | none => throw (.execution (.illegalOpcode address word))
  | some i => do
    report (.execute address word i)
    onState (InPlace.setPc next)
    carryOut i address

def attempt (address word : Word) : Working σ Outcome := do
  let next ← onState (InPlace.address address 1)
  let decoded ← onState (InPlace.ensure (Fault.ofMisuse (Instruction.decode word)))
  advance address word next decoded

/-- Executes `word` at PC. -/
def execute (word : Word) : Working σ Outcome := fun w =>
  let address := w.machine.pc
  match attempt address word w with
  | .error (.execution e) w =>
    .error (.execution e)
      { machine := w.machine.setPc address
        events := w.events ++ [.instructionFailed address word e] }
  | result => result

/-! ## What the parts do -/

variable {m : Machine σ} {word : Word} {events : List Event}

/-- The service is called in the state `State.entry`, with the registers from before it saved. -/
theorem trap_eq (m : Machine σ) (events : List Event) (vector : Byte) :
    trap vector m.pc { machine := m.setPc (m.pc + 1), events } =
      (call vector >>= leave m.state.fetched vector m.pc)
        { machine := { state := m.state.entry, handler := m.handler }
          events := events ++ [.invokeTrap vector (StandardTrap.ofVector? vector) m.pc] } :=
  rfl

theorem call_ok {w : Workbench σ} {vector : Byte} {served : Served σ}
    (hs : TrapHandler.invoke vector w.machine.handler w.machine.state = .ok served) :
    call vector w = .ok served.reply
      { w with machine := { state := served.state, handler := served.server } } := by
  rw [call, hs]

theorem call_misuse {w : Workbench σ} {vector : Byte} {cause : Misuse}
    (hs : TrapHandler.invoke vector w.machine.handler w.machine.state = .error cause) :
    call vector w = .error (.misuse cause) w := by
  rw [call, hs]

theorem attempt_of_decode {decoded : Option Instruction} (hpc : m.pc ≠ 0xFFFF)
    (hd : Instruction.decode word = .ok decoded) :
    attempt m.pc word { machine := m, events } =
      advance m.pc word (m.pc + 1) decoded { machine := m, events } := by
  have hnext : InPlace.address m.pc 1 m.state = .ok (m.pc + 1) m.state := by
    rw [InPlace.address, Machine.effectiveAddress_next hpc]
    rfl
  have hdecoded : InPlace.ensure (Fault.ofMisuse (Instruction.decode word)) m.state =
      .ok decoded m.state := by
    rw [hd]
    rfl
  exact (InPlace.bind_of_ok (onState_ok hnext)).trans
    (InPlace.bind_of_ok (onState_ok hdecoded))

theorem carryOut_of_effect {i : Instruction} {eff : Effect} (hv : i.vector? = none)
    (he : i.effect m.state.fetched m.state.mem = .ok eff) :
    carryOut i m.pc { machine := m.setPc (m.pc + 1), events } =
      .ok .proceed { machine := { m with state := m.state.commit eff }, events } := by
  have hperform : i.perform (m.setPc (m.pc + 1)).state = .ok (m.state.commit eff) :=
    bind_eq_ok.2 ⟨eff, he, rfl⟩
  have hplace := ((i.decided (m.setPc (m.pc + 1)).state).agree.1 _).1 hperform
  unfold carryOut
  rw [hv]
  exact InPlace.bind_of_ok (onState_ok hplace)

theorem carryOut_of_error {i : Instruction} {f : Fault} (hv : i.vector? = none)
    (he : i.effect m.state.fetched m.state.mem = .error f) :
    carryOut i m.pc { machine := m.setPc (m.pc + 1), events } =
      .error f { machine := m.setPc (m.pc + 1), events } := by
  have hperform : i.perform (m.setPc (m.pc + 1)).state = .error f := by
    show (i.effect m.state.fetched m.state.mem >>= _) = _
    rw [he]
    rfl
  have hplace := ((i.decided (m.setPc (m.pc + 1)).state).agree.2 _).1 hperform
  unfold carryOut
  rw [hv]
  exact InPlace.bind_of_error (onState_error hplace)

variable {w : Workbench σ}

theorem execute_of_ok {outcome : Outcome}
    (h : attempt m.pc word { machine := m, events } = .ok outcome w) :
    execute word { machine := m, events } = .ok outcome w := by
  simp only [execute, h]

theorem execute_of_misuse {cause : Misuse}
    (h : attempt m.pc word { machine := m, events } = .error (.misuse cause) w) :
    execute word { machine := m, events } = .error (.misuse cause) w := by
  simp only [execute, h]

theorem execute_of_error {e : ExecutionError}
    (h : attempt m.pc word { machine := m, events } = .error (.execution e) w) :
    execute word { machine := m, events } = .error (.execution e)
      { machine := w.machine.setPc m.pc
        events := w.events ++ [.instructionFailed m.pc word e] } := by
  simp only [execute, h]

end Working

/-! ## The execution of a word -/

/-- How the step looks in place, after other events. -/
def Step.ending {σ : Type} (step : Step σ) (events : List Event) :
    EStateM.Result Fault (Workbench σ) Outcome :=
  let w : Workbench σ := { machine := step.machine, events := events ++ step.events }
  match step.result with
  | .ok outcome => .ok outcome w
  | .error e => .error (.execution e) w

namespace Machine
variable {σ : Type}

theorem setPc_of_regs {m m' : Machine σ} (h : m'.state.regs = m.state.regs) (pc : Word) :
    (m'.setPc pc).setPc m.pc = m' := by
  obtain ⟨⟨regs, mem⟩, handler⟩ := m'
  cases h
  rfl

variable [TrapHandler σ] {m : Machine σ} {word : Word}

/-- An execution that has failed leaves PC to be set back. All else is as the step says. -/
theorem Executes.attempt_eq {step : Step σ} (h : m.Executes word step) (events : List Event) :
    match step.result with
    | .ok outcome =>
      Working.attempt m.pc word { machine := m, events } =
        .ok outcome { machine := step.machine, events := events ++ step.events }
    | .error e =>
      ∃ pc reported, step.events = reported ++ [.instructionFailed m.pc word e] ∧
        Working.attempt m.pc word { machine := m, events } =
          .error (.execution e)
            { machine := step.machine.setPc pc, events := events ++ reported } := by
  cases h with
  | lastAddress hpc =>
    refine ⟨m.pc, [], rfl, ?_⟩
    have hnext : InPlace.address m.pc 1 m.state =
        .error (.execution (.addressOutOfRange 0x10000)) m.state := by
      rw [hpc]
      rfl
    rw [List.append_nil]
    exact InPlace.bind_of_error (Working.onState_error hnext)
  | illegal hpc hd =>
    refine ⟨m.pc, [], rfl, ?_⟩
    rw [Working.attempt_of_decode hpc hd, List.append_nil]
    rfl
  | rejected hpc hd he =>
    refine ⟨m.pc + 1, [_], rfl, ?_⟩
    rw [Working.attempt_of_decode hpc hd]
    exact Working.carryOut_of_error (Instruction.vector?_of_error he) he
  | performed hpc hd hv he =>
    rw [Working.attempt_of_decode hpc hd]
    exact Working.carryOut_of_effect hv he
  | served hpc hd hs hr =>
    rw [Working.attempt_of_decode hpc hd]
    refine (Working.trap_eq m _ _).trans ((InPlace.bind_of_ok (Working.call_ok hs)).trans ?_)
    rw [hr, List.append_assoc]
    rfl
  | refused hpc hd hs hr =>
    refine ⟨m.pc + 1, [_, _], rfl, ?_⟩
    rw [Working.attempt_of_decode hpc hd]
    refine (Working.trap_eq m _ _).trans ((InPlace.bind_of_ok (Working.call_ok hs)).trans ?_)
    rw [hr, List.append_assoc]
    rfl

/-- In place the execution of a word ends as the step says. PC, which it has moved, is set back by
the one who has moved it. -/
theorem Executes.inPlace_eq {step : Step σ} (h : m.Executes word step) (events : List Event) :
    Working.execute word { machine := m, events } = step.ending events := by
  have hattempt := h.attempt_eq events
  unfold Step.ending
  cases hr : step.result with
  | ok outcome =>
    rw [hr] at hattempt
    exact Working.execute_of_ok hattempt
  | error e =>
    rw [hr] at hattempt
    obtain ⟨pc, reported, hevents, hattempt⟩ := hattempt
    have hback : (step.machine.setPc pc).setPc m.pc = step.machine :=
      setPc_of_regs (h.regs_eq_of_error hr) pc
    rw [Working.execute_of_error hattempt, hback, hevents, List.append_assoc]

theorem Misuses.inPlace_eq {cause : Misuse} (h : m.Misuses word cause) (events : List Event) :
    ∃ w, Working.execute word { machine := m, events } = .error (.misuse cause) w := by
  obtain ⟨hpc, i, hd, he | ⟨vector, rfl, hs⟩⟩ := h
  · exact ⟨_, Working.execute_of_misuse ((Working.attempt_of_decode hpc hd).trans
      (Working.carryOut_of_error (Instruction.vector?_of_error he) he))⟩
  · have htrap := (Working.trap_eq m (events ++ [.execute m.pc word (.trap vector)]) vector).trans
      (InPlace.bind_of_error (Working.call_misuse hs))
    exact ⟨_, Working.execute_of_misuse ((Working.attempt_of_decode hpc hd).trans htrap)⟩

/-- Executing a word and executing it in place are the same. -/
theorem execute_inPlace (m : Machine σ) (word : Word) (events : List Event) :
    (∀ step, m.execute word = .ok step →
        Working.execute word { machine := m, events } = step.ending events) ∧
      ∀ cause, m.execute word = .error cause →
        ∃ w, Working.execute word { machine := m, events } = .error (.misuse cause) w :=
  ⟨fun _ h => (execute_eq_ok_iff.1 h).inPlace_eq events,
    fun _ h => (execute_eq_error_iff.1 h).inPlace_eq events⟩

/-- Whatever has failed in place, registers and cells are put back, as long as the service has only
edited the memory. -/
theorem inPlace_restores {e : ExecutionError} {events : List Event} {w : Workbench σ}
    (hm : m.CallsEditor word)
    (h : Working.execute word { machine := m, events } = .error (.execution e) w) :
    w.machine.state.regs = m.state.regs ∧
      ∀ a, w.machine.state.mem.read a = m.state.mem.read a := by
  obtain ⟨step, hx⟩ | ⟨cause, hx⟩ := executes_or_misuses m word
  · rw [hx.inPlace_eq, Step.ending] at h
    cases hr : step.result with
    | ok outcome =>
      rw [hr] at h
      cases h
    | error e' =>
      rw [hr] at h
      cases h
      exact hx.restores hm hr
  · obtain ⟨w', hw⟩ := hx.inPlace_eq events
    rw [hw] at h
    cases h

end Machine

end Lc3
