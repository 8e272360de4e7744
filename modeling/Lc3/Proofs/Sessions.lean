import Lc3.Machine.Command
import Lc3.Proofs.Running

/-! # Sessions

A session with a machine is a series of commands; between two of them the trap handler may be
changed or replaced from outside.

* `Machine.LeadsTo`: the machines that a session passes, each command having been answered.
* `Machine.Quiet`: the undo log of the memory is closed. It is open only while the service of a
  TRAP is running.
* `Machine.Moves`, `Command.perform_moves`: what any command can do to a machine.
* `Executes.quiet`, `Moves.quiet`, `LeadsTo.quiet`: neither a step nor a command leaves the log open.
-/

namespace Lc3
set_option autoImplicit false

/-- A state is its registers, the cells of its memory and the undo log. -/
theorem State.ext_read {s t : State} (hregs : s.regs = t.regs)
    (hcells : ∀ a, s.mem.read a = t.mem.read a) (hlog : s.mem.undoLog = t.mem.undoLog) : s = t := by
  obtain ⟨regs, mem⟩ := s
  obtain ⟨regs', mem'⟩ := t
  cases hregs
  rw [mk.injEq]
  exact ⟨rfl, Memory.ext_read hcells hlog⟩

namespace Machine

variable {σ : Type}

/-! ## Closed logs -/

/-- No write to the memory is recorded. -/
def Quiet (m : Machine σ) : Prop :=
  m.state.mem.undoLog = none

theorem withHandler_quiet (handler : σ) : (withHandler handler).Quiet :=
  rfl

/-- Nothing is hidden in a quiet machine. -/
theorem Quiet.ext {m m' : Machine σ} (hm : m.Quiet) (hm' : m'.Quiet)
    (hregs : m.state.regs = m'.state.regs)
    (hcells : ∀ a, m.state.mem.read a = m'.state.mem.read a) (hhandler : m.handler = m'.handler) :
    m = m' := by
  have hstate := State.ext_read hregs hcells (hm.trans hm'.symm)
  obtain ⟨state, handler⟩ := m
  obtain ⟨state', handler'⟩ := m'
  cases hstate
  cases hhandler
  rfl

variable [TrapHandler σ] {m m' : Machine σ}

/-- Before a service the log is opened. Both of its ends close it, whatever memory the service
left: going on keeps the writes, a failure rolls them back. -/
theorem Executes.quiet {word : Word} {step : Step σ} (h : m.Executes word step) (hm : m.Quiet) :
    step.machine.Quiet := by
  cases h with
  | lastAddress | illegal | rejected => exact hm
  | served => rfl
  | refused => exact Memory.undoLog_rollBack _
  | @performed i eff hpc hd hv he =>
    obtain ⟨regs, store, service⟩ := eff
    cases store with
    | none => exact hm
    | some entry => exact Memory.undoLog_writeBlock_none entry.1 [entry.2] hm

theorem Runs.quiet {max : Nat} {run : Run σ} (h : m.Runs max run) (hm : m.Quiet) :
    run.machine.Quiet :=
  h.keeps (fun _ _ hm hs => (execute_eq_ok_iff.1 hs).quiet hm) hm

/-! ## Commands -/

/-- The ways in which a command changes a machine: by executing a word, by a run, or by setting
registers and editing the memory from outside. -/
inductive Moves (m : Machine σ) : Machine σ → Prop
  | executed {word : Word} {step : Step σ} (h : m.Executes word step) : Moves m step.machine
  | ran {max : Nat} {run : Run σ} (h : m.Runs max run) : Moves m run.machine
  | set {regs : RegisterFile} {mem : Memory} (h : m.state.mem.Edited mem) :
      Moves m { state := { regs, mem }, handler := m.handler }

theorem Moves.none (m : Machine σ) : m.Moves m :=
  .set (.refl m.state.mem)

theorem Moves.quiet (h : m.Moves m') (hm : m.Quiet) : m'.Quiet := by
  cases h with
  | executed h => exact h.quiet hm
  | ran h => exact h.quiet hm
  | set h => exact h.undoLog_none hm

end Machine

namespace Command

variable {σ : Type} [TrapHandler σ] {m : Machine σ}

theorem load_moves (a : Word) (ws : List Word) :
    m.Moves (Performed.ofLoad m (m.load a ws)).machine := by
  cases h : m.load a ws with
  | error e => exact .none m
  | ok loaded =>
    obtain ⟨mem, hl, h⟩ := bind_eq_ok.1 h
    cases h
    exact .set (.load hl)

theorem loadImage_moves (image : List Word) :
    m.Moves (Performed.ofLoad m (m.loadImage image)).machine := by
  cases h : m.loadImage image with
  | error e => exact .none m
  | ok loaded =>
    cases image with
    | nil => cases h
    | cons origin program =>
      obtain ⟨loaded', hload, h⟩ := bind_eq_ok.1 h
      obtain ⟨mem, hmem, hload⟩ := bind_eq_ok.1 hload
      cases hload
      cases h
      exact .set (.load hmem)

theorem edit_moves (e : Memory.Edit) : m.Moves (Performed.ofEdit m (m.edit e)).machine := by
  cases h : m.edit e with
  | error cause => exact .none m
  | ok edited =>
    obtain ⟨mem, he, h⟩ := bind_eq_ok.1 h
    cases h
    exact .set (.perform he)

theorem perform_moves {fuel : Nat} {command : Command} {performed : Performed σ}
    (h : command.perform fuel m = .ok (some performed)) : m.Moves performed.machine := by
  cases command with
  | reset =>
    cases h
    exact .set (.clear _)
  | load a ws =>
    cases h
    exact load_moves a ws
  | loadImage image =>
    cases h
    exact loadImage_moves image
  | step | execute word =>
    obtain ⟨step, hs, h⟩ := bind_eq_ok.1 h
    cases h
    exact .executed (Machine.execute_eq_ok_iff.1 hs)
  | run =>
    obtain ⟨run?, hr, h⟩ := bind_eq_ok.1 h
    cases run? with
    | none => cases h
    | some run =>
      cases h
      exact .ran (Machine.runLimit_eq_ok_iff.1 (Machine.run_eq_some_iff.1 hr).1)
  | runLimit max =>
    obtain ⟨run, hr, h⟩ := bind_eq_ok.1 h
    cases h
    exact .ran (Machine.runLimit_eq_ok_iff.1 hr)
  | setPc w =>
    cases h
    exact .set (.refl _)
  | setRegister r w =>
    obtain ⟨changed, hc, h⟩ := bind_eq_ok.1 h
    obtain ⟨regs, -, hc⟩ := bind_eq_ok.1 hc
    cases hc
    cases h
    exact .set (.refl _)
  | edit e =>
    cases h
    exact edit_moves e

end Command

/-! ## Series of commands -/

namespace Machine

variable {σ : Type} [TrapHandler σ] {m m' : Machine σ}

/-- The machines that a session starting with `m` passes. -/
inductive LeadsTo (m : Machine σ) : Machine σ → Prop
  | refl : LeadsTo m m
  | command {m' : Machine σ} {fuel : Nat} {command : Command} {performed : Performed σ}
      (h : LeadsTo m m') (hp : command.perform fuel m' = .ok (some performed)) :
      LeadsTo m performed.machine
  | handler {m' : Machine σ} (h : LeadsTo m m') (handler : σ) : LeadsTo m { m' with handler }

theorem LeadsTo.quiet (h : m.LeadsTo m') (hm : m.Quiet) : m'.Quiet := by
  induction h with
  | refl => exact hm
  | command _ hp ih => exact (Command.perform_moves hp).quiet ih
  | handler _ _ ih => exact ih

end Machine

end Lc3
