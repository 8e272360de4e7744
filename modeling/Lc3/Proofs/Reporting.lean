import Lc3.Proofs.Executions
import Lc3.Proofs.Failure

/-! # Events agree with what happened

The events of an execution follow from the PC, the word and the result alone, and those of a run
from its executions and its outcome. So they can be counted: the log of a run tells how many
instructions it executed and whether and where it failed.

* `Machine.report`: what executing a word reports. `Executes.events_eq`: it reports nothing else.
* `Run.closing`: the last event of a run, if there is one. `Runs.events_eq`: a run reports what its
  executions report, and this.
* `Executes.counts_of_ok`, `Executes.counts_of_error`, `Proceeds.counts`: the numbers of
  events of each kind.
* `events_tell_what_happened`: the account of all events.
-/

namespace Lc3
set_option autoImplicit false
open Reference

namespace Event

def isExecute : Event → Bool
  | execute .. => true
  | _ => false

def isFailure : Event → Bool
  | instructionFailed .. => true
  | _ => false

def isClosing : Event → Bool
  | halted .. | limitReached .. => true
  | _ => false

end Event

def RunOutcome.steps : RunOutcome → Nat
  | halted steps | limitReached steps => steps

/-- What a run reports after its last execution. A failure was reported by the execution. -/
def Run.closing {σ : Type} (run : Run σ) : List Event :=
  match run.result with
  | .ok (.halted steps) => [.halted steps run.machine.pc]
  | .ok (.limitReached steps) => [.limitReached steps]
  | .error _ => []

/-- The word was looked at and holds an instruction, whatever becomes of it. -/
def Execution.Decodes {σ : Type} (e : Execution σ) : Prop :=
  e.before.pc ≠ 0xFFFF ∧ ∃ i, Instruction.decode e.word = .ok (some i)

namespace Machine
variable {σ : Type} [TrapHandler σ] {m m' : Machine σ} {word : Word} {step : Step σ}

/-! ## Executions -/

def failureReport (m : Machine σ) (word : Word) : Except ExecutionError Outcome → List Event
  | .ok _ => []
  | .error e => [.instructionFailed m.pc word e]

/-- The events of an execution of `word` with this result. -/
def report (m : Machine σ) (word : Word) (result : Except ExecutionError Outcome) : List Event :=
  if m.pc = 0xFFFF then m.failureReport word result
  else
    match Instruction.decode word with
    | .ok (some i) =>
      [.execute m.pc word i] ++
        (if bits word 12 4 = 0xF then
          [.invokeTrap (vector word) (StandardTrap.ofVector? (vector word)) m.pc] else []) ++
        m.failureReport word result
    | _ => m.failureReport word result

theorem Executes.events_eq (h : m.Executes word step) :
    step.events = m.report word step.result := by
  unfold report
  cases h with
  | lastAddress hpc =>
    rw [if_pos hpc]
    rfl
  | illegal hpc hd =>
    rw [if_neg hpc, hd]
    rfl
  | rejected hpc hd he =>
    have hop : bits word 12 4 ≠ 0xF := by
      intro hop
      cases hd.symm.trans (decode_eq_trap word hop)
      cases he
    rw [if_neg hpc, hd]
    simp only [if_neg hop]
    rfl
  | performed hpc hd hv he =>
    have hop := (opcode_of_vector?_none word hd hv).2.2
    rw [if_neg hpc, hd]
    simp only [if_neg hop]
    rfl
  | served hpc hd hs hr | refused hpc hd hs hr =>
    obtain ⟨hop, rfl⟩ := (decode_eq_trap_iff word).1 hd
    rw [if_neg hpc, hd]
    simp only [if_pos hop]
    rfl

/-! ## Counting events -/

theorem Executes.counts_of_ok {outcome : Outcome} (h : m.Executes word step)
    (hr : step.result = .ok outcome) :
    step.events.countP Event.isExecute = 1 ∧ step.events.countP Event.isFailure = 0 ∧
      step.events.countP Event.isClosing = 0 := by
  cases h with
  | lastAddress | illegal | rejected | refused => cases hr
  | performed | served => exact ⟨rfl, rfl, rfl⟩

/-- A failure is the last event; before it the instruction is reported if there is one. -/
theorem Executes.counts_of_error {e : ExecutionError} (h : m.Executes word step)
    (hr : step.result = .error e) :
    ∃ earlier : List Event, step.events = earlier ++ [.instructionFailed m.pc word e] ∧
      earlier.countP Event.isFailure = 0 ∧ earlier.countP Event.isClosing = 0 ∧
      (Execution.Decodes { before := m, word, step } ∧ earlier.countP Event.isExecute = 1 ∨
        ¬Execution.Decodes { before := m, word, step } ∧ earlier.countP Event.isExecute = 0) := by
  cases h with
  | performed | served => cases hr
  | lastAddress hpc =>
    cases hr
    exact ⟨[], rfl, rfl, rfl, .inr ⟨fun hd => hd.1 hpc, rfl⟩⟩
  | illegal hpc hd =>
    cases hr
    refine ⟨[], rfl, rfl, rfl, .inr ⟨fun ⟨_, i, hi⟩ => ?_, rfl⟩⟩
    cases hd.symm.trans hi
  | rejected hpc hd he =>
    cases hr
    exact ⟨[_], rfl, rfl, rfl, .inl ⟨⟨hpc, _, hd⟩, rfl⟩⟩
  | refused hpc hd hs hr' =>
    cases hr
    exact ⟨[_, _], rfl, rfl, rfl, .inl ⟨⟨hpc, _, hd⟩, rfl⟩⟩

variable {k max : Nat} {events : List Event} {run : Run σ}

theorem Proceeds.counts (h : m.Proceeds k events m') :
    events.countP Event.isExecute = k ∧ events.countP Event.isFailure = 0 ∧
      events.countP Event.isClosing = 0 := by
  induction h with
  | refl m => exact ⟨rfl, rfl, rfl⟩
  | head hs hr _ ih =>
    obtain ⟨hexecute, hfailure, hclosing⟩ := ih
    obtain ⟨hfirst, hfirst', hfirst''⟩ := (execute_eq_ok_iff.1 hs).counts_of_ok hr
    simp only [List.countP_append]
    omega

/-! ## Runs -/

theorem mem_executions {n : Nat} {e : Execution σ} (he : e ∈ m.executions n) :
    e.before.step = .ok e.step ∧ e.word = e.before.fetch := by
  obtain ⟨i, events, -, -, he⟩ := exists_proceeds_of_mem he
  exact he

theorem Runs.events_eq (h : m.Runs max run) :
    run.events.toList = Execution.eventsAll (m.executions max) ++ run.closing := by
  cases h with
  | halted hk hp hs hr | failed hk hp hs hr =>
    rw [hp.executions_last hk hs (by simp [hr])]
    have hevents := hp.eventsAll
    simp [Execution.eventsAll, Run.closing, ← hevents]
  | limited hp =>
    rw [hp.eventsAll]
    simp [Run.closing]

/-- A run that ends without a failure has reported as many instructions as it counted, and its
end. -/
theorem Runs.counts_of_ok {outcome : RunOutcome} (h : m.Runs max run)
    (hr : run.result = .ok outcome) :
    run.events.toList.countP Event.isExecute = outcome.steps ∧
      run.events.toList.countP Event.isFailure = 0 ∧
      run.events.toList.countP Event.isClosing = 1 := by
  cases h with
  | halted hk hp hs hr' =>
    cases hr
    obtain ⟨hexecute, hfailure, hclosing⟩ := hp.counts
    obtain ⟨hlast, hlast', hlast''⟩ := (execute_eq_ok_iff.1 hs).counts_of_ok hr'
    simp [hexecute, hfailure, hclosing, hlast, hlast', hlast'', Event.isExecute, Event.isFailure,
      Event.isClosing, RunOutcome.steps]
  | failed => cases hr
  | limited hp =>
    cases hr
    obtain ⟨hexecute, hfailure, hclosing⟩ := hp.counts
    simp [hexecute, hfailure, hclosing, Event.isExecute, Event.isFailure, Event.isClosing,
      RunOutcome.steps]

/-- A run that fails has reported the failure of its last execution at the PC that it leaves, and
nothing after it. -/
theorem Runs.counts_of_error {e : ExecutionError} (h : m.Runs max run)
    (hr : run.result = .error e) :
    ∃ (front : List (Execution σ)) (last : Execution σ) (earlier : List Event),
      m.executions max = front ++ [last] ∧ Proceeding front ∧ last.step.result = .error e ∧
      last.before.pc = run.machine.pc ∧
      run.events.toList = earlier ++ [.instructionFailed run.machine.pc last.word e] ∧
      earlier.countP Event.isFailure = 0 ∧ earlier.countP Event.isClosing = 0 ∧
      (last.Decodes ∧ earlier.countP Event.isExecute = front.length + 1 ∨
        ¬last.Decodes ∧ earlier.countP Event.isExecute = front.length) := by
  cases h with
  | halted | limited => cases hr
  | @failed k es m' last e' hk hp hs hr' =>
    cases hr
    have hx := execute_eq_ok_iff.1 hs
    have hpc : last.machine.pc = m'.pc := congrArg RegisterFile.pc (hx.regs_eq_of_error hr')
    obtain ⟨hexecute, hfailure, hclosing⟩ := hp.counts
    obtain ⟨earlier, hevents, hlast', hlast'', hlast⟩ := hx.counts_of_error hr'
    refine ⟨m.executions k, _, es ++ earlier, hp.executions_last hk hs (by simp [hr']),
      hp.proceeding, hr', hpc.symm, ?_, ?_, ?_, ?_⟩
    · simp [hevents, hpc]
      rfl
    · rw [List.countP_append, hfailure, hlast']
    · rw [List.countP_append, hclosing, hlast'']
    · rw [List.countP_append, hexecute, hp.length_executions]
      refine hlast.imp (And.imp_right fun h => ?_) (And.imp_right fun h => ?_)
      · rw [h]
      · rw [h]
        rfl

omit [TrapHandler σ] in
theorem load_events (m : Machine σ) (a : Word) (ws : List Word) :
    (Performed.ofLoad m (m.load a ws)).events.toList =
      if Memory.Fits a ws.length then [.loadedBlock a ws.length] else [] := by
  unfold load Memory.load
  split <;> rfl

omit [TrapHandler σ] in
theorem loadImage_events (m : Machine σ) (origin : Word) (program : List Word) :
    (Performed.ofLoad m (m.loadImage (origin :: program))).events.toList =
      if Memory.Fits origin program.length then [.loadedBlock origin program.length] else [] := by
  simp only [loadImage, load, Memory.load]
  split <;> rfl

/-- Executing a word reports what follows from the PC, the word and the result, unless the service
of a TRAP breaks a contract. A run reports what its executions report, each once and in order, and
then its outcome. If it ends without a failure, it has reported as many instructions as it counted
and no failure. If it fails, the last event is its only failure, at the PC that it leaves; before
it are the instructions that went well and the one that failed, if there was one. -/
theorem events_tell_what_happened (m : Machine σ) :
    (∀ word, (∃ step, m.execute word = .ok step ∧ step.events = m.report word step.result) ∨
      ∃ cause, m.execute word = .error cause ∧ m.pc ≠ 0xFFFF ∧ bits word 12 4 = 0xF ∧
        TrapHandler.invoke (vector word) m.handler m.state.entry = .error cause) ∧
    (∀ vector t, StandardTrap.ofVector? vector = some t ↔ vector = t.vector) ∧
    (∀ max, (∃ run, m.runLimit max = .ok run ∧ Concludes (m.executions max) run.result ∧
        run.events.toList = Execution.eventsAll (m.executions max) ++ run.closing) ∨
      ∃ cause, m.runLimit max = .error cause ∧ m.RunMisuses max cause) ∧
    (∀ fuel run, m.run fuel = .ok (some run) → Concludes (m.executions fuel) run.result ∧
      run.events.toList = Execution.eventsAll (m.executions fuel) ++ run.closing) ∧
    (∀ max, ∀ e ∈ m.executions max, e.before.step = .ok e.step ∧
      e.step.events = e.before.report e.before.fetch e.step.result) ∧
    (∀ max run outcome, m.runLimit max = .ok run ∨ m.run max = .ok (some run) →
      run.result = .ok outcome →
        run.events.toList.countP Event.isExecute = outcome.steps ∧
          run.events.toList.countP Event.isFailure = 0 ∧
          run.events.toList.countP Event.isClosing = 1) ∧
    (∀ max run e, m.runLimit max = .ok run ∨ m.run max = .ok (some run) →
      run.result = .error e →
        ∃ (front : List (Execution σ)) (last : Execution σ) (earlier : List Event),
          m.executions max = front ++ [last] ∧ Proceeding front ∧ last.step.result = .error e ∧
          last.before.pc = run.machine.pc ∧
          run.events.toList = earlier ++ [.instructionFailed run.machine.pc last.word e] ∧
          earlier.countP Event.isFailure = 0 ∧ earlier.countP Event.isClosing = 0 ∧
          (last.Decodes ∧ earlier.countP Event.isExecute = front.length + 1 ∨
            ¬last.Decodes ∧ earlier.countP Event.isExecute = front.length)) ∧
    (∀ a ws, (Performed.ofLoad m (m.load a ws)).events.toList =
      if Memory.Fits a ws.length then [.loadedBlock a ws.length] else []) ∧
    ∀ origin program, (Performed.ofLoad m (m.loadImage (origin :: program))).events.toList =
      if Memory.Fits origin program.length then [.loadedBlock origin program.length] else [] := by
  have hruns : ∀ {max run}, m.runLimit max = .ok run ∨ m.run max = .ok (some run) →
      m.Runs max run := by
    rintro max run (h | h)
    · exact runLimit_eq_ok_iff.1 h
    · exact runLimit_eq_ok_iff.1 (run_eq_some_iff.1 h).1
  refine ⟨fun word => ?_, fun vector t => StandardTrap.ofVector?_eq_some_iff, fun max => ?_,
    fun fuel run h => ⟨(hruns (.inr h)).concludes, (hruns (.inr h)).events_eq⟩, fun max e he => ?_,
    fun max run outcome h hr => (hruns h).counts_of_ok hr,
    fun max run e h hr => (hruns h).counts_of_error hr, m.load_events, m.loadImage_events⟩
  · obtain ⟨step, hs, -⟩ | ⟨cause, hc, -, hmisuse⟩ := execute_decided m word
    · exact .inl ⟨step, hs.execute_eq, hs.events_eq⟩
    · exact .inr ⟨cause, hc, hmisuse⟩
  · obtain ⟨run, h⟩ | ⟨cause, h⟩ := runs_or_misuses m max
    · exact .inl ⟨run, h.runLimit_eq, h.concludes, h.events_eq⟩
    · exact .inr ⟨cause, runLimit_eq_error h, h⟩
  · have hs := (mem_executions he).1
    exact ⟨hs, (execute_eq_ok_iff.1 hs).events_eq⟩

/-- A machine with a zeroed memory and two steps to the end of the address space. -/
def atTheEdge : Machine Recorder :=
  (withHandler {}).setPc 0xFFFE

theorem atTheEdge_proceeds : ∃ events, atTheEdge.Proceeds 1 events (atTheEdge.setPc 0xFFFF) := by
  have hfetch : atTheEdge.state.mem.read atTheEdge.pc = 0 := Memory.read_zeroed _
  have hd : Instruction.decode 0 = .ok (some (.br false false false 0)) := rfl
  have he : (Instruction.br false false false 0).effect atTheEdge.state.fetched
      atTheEdge.state.mem = .ok { regs := atTheEdge.state.fetched } := rfl
  have hs := (Executes.performed (by decide) hd rfl he).execute_eq
  rw [← hfetch] at hs
  exact ⟨_, .head hs rfl (.refl _)⟩

theorem atTheEdge_fails : ∃ last, (atTheEdge.setPc 0xFFFF).step = .ok last ∧
    last.result = .error (.addressOutOfRange 0x10000) ∧ last.machine.pc = 0xFFFF := by
  have hpc : (atTheEdge.setPc 0xFFFF).pc = 0xFFFF := rfl
  exact ⟨_, (Executes.lastAddress hpc).execute_eq, rfl, rfl⟩

/-- One instruction is executed. A run that may execute no more reports just that and its limit, and
a run that goes on reports its failure behind the instruction. -/
theorem events_tell_what_happened_atTheEdge :
    (∃ cut, atTheEdge.runLimit 1 = .ok cut ∧ cut.result = .ok (.limitReached 1) ∧
      cut.events.toList.countP Event.isExecute = 1 ∧
      cut.events.toList.countP Event.isFailure = 0) ∧
    ∃ run word, ∃ earlier : List Event, atTheEdge.run 2 = .ok (some run) ∧
      run.events.toList =
        earlier ++ [.instructionFailed 0xFFFF word (.addressOutOfRange 0x10000)] ∧
      earlier.countP Event.isFailure = 0 := by
  obtain ⟨-, -, -, -, -, hok, hfailed, -⟩ := events_tell_what_happened atTheEdge
  obtain ⟨events, hp⟩ := atTheEdge_proceeds
  obtain ⟨last, hs, hr, hpc⟩ := atTheEdge_fails
  constructor
  · have hcut := (Runs.limited hp).runLimit_eq
    obtain ⟨hexecute, hfailure, -⟩ := hok 1 _ _ (.inl hcut) rfl
    exact ⟨_, hcut, rfl, hexecute, hfailure⟩
  · have hlimit := (Runs.failed (by decide : 1 < 2) hp hs hr).runLimit_eq
    have hrun := run_eq_some_iff.2 ⟨hlimit, fun n hn => nomatch hn⟩
    obtain ⟨front, e, earlier, -, -, -, -, hevents, hfailure, -⟩ := hfailed 2 _ _ (.inr hrun) rfl
    rw [hpc] at hevents
    exact ⟨_, e.word, earlier, hrun, hevents, hfailure⟩

end Machine
end Lc3
