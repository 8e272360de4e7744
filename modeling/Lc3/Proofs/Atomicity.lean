import Lc3.Proofs.Editing

/-! # A step that fails changes nothing

The four errors leave an instruction at different depths: before it is decoded, before it takes
effect, and after a service has changed registers and memory. In each case the machine is left
with the registers and the cells that it had.

* `Machine.CallsEditor`: the service that a word calls, if it is a TRAP, only edits the memory.
* `Executes.restores`: under this condition a failing execution restores registers and cells.
* `execute_atomic`: the same for executing a word and for a step, and the undo log against a
  snapshot.
-/

namespace Lc3
set_option autoImplicit false

namespace Machine
variable {σ : Type} [TrapHandler σ]

/-- The service that `word` calls changes the memory that it is given by edits only. -/
def CallsEditor (m : Machine σ) (word : Word) : Prop :=
  ∀ vector, Instruction.decode word = .ok (some (.trap vector)) →
    TrapHandler.EditsMemory m.handler vector m.state.entry

theorem callsEditor_of_script {m : Machine (TrapTable ScriptedRoutine)} {word : Word} {v : Byte}
    {routine : ScriptedRoutine} (hd : Instruction.decode word = .ok (some (.trap v)))
    (hget : m.handler.get? v = some (.routine routine)) (hne : .newMemory ∉ routine.actions) :
    m.CallsEditor word := by
  intro vector hd'
  rw [hd] at hd'
  cases hd'
  refine TrapTable.editsMemory fun routine' hget' => ?_
  rw [hget] at hget'
  cases hget'
  exact ScriptedRoutine.editsMemory hne _

theorem Executes.restores {m : Machine σ} {word : Word} {step : Step σ} {e : ExecutionError}
    (h : m.Executes word step) (hm : m.CallsEditor word) (he : step.result = .error e) :
    step.machine.state.regs = m.state.regs ∧
      ∀ a, step.machine.state.mem.read a = m.state.mem.read a := by
  cases h with
  | lastAddress | illegal | rejected => exact ⟨rfl, fun _ => rfl⟩
  | performed | served => cases he
  | refused hpc hd hs hr =>
    have hedit := hm _ hd _ hs
    refine ⟨rfl, fun a => ?_⟩
    rw [State.recovered, hedit.rollBack_openLog]
    rfl

/-- A step is atomic: whatever the error, registers, PC, condition code and cells are those before
it. Rolling back leaves what a snapshot from before the edits would. -/
theorem execute_atomic (m : Machine σ) :
    (∀ word step e, m.CallsEditor word → m.execute word = .ok step → step.result = .error e →
        step.machine.state.regs = m.state.regs ∧
          ∀ a, step.machine.state.mem.read a = m.state.mem.read a) ∧
      (∀ step e, m.CallsEditor (m.state.mem.read m.pc) → m.step = .ok step →
        step.result = .error e →
          step.machine.state.regs = m.state.regs ∧
            ∀ a, step.machine.state.mem.read a = m.state.mem.read a) ∧
      ∀ (mem : Memory) es, (mem.openLog.editAll es).rollBack = { mem with undoLog := none } := by
  refine ⟨fun word step e hm h he => ?_, fun step e hm h he => ?_, fun mem es => ?_⟩
  · exact (execute_eq_ok_iff.1 h).restores hm he
  · exact (execute_eq_ok_iff.1 h).restores hm he
  · exact mem.rollBack_edits es

/-- A routine that writes all over registers and memory, some cells again and again, and then
fails because a block does not fit. -/
def scribble : ScriptedRoutine where
  actions :=
    [.set 0 99, .set 7 0x1234, .setPc 0x5000, .poke 0x4000 1, .poke 0x4000 2,
      .load 0x3FFF [3, 4, 5], .storeWord 7 0, .resetMemory, .poke 0x4000 6, .load 0x4000 [8, 9],
      .newRegisters, .load 0xFFFF [1, 2]]
  reply := .ok .resume

/-- R0 and the cell 0x4000 hold 7, and vector 0x30 calls `scribble`. -/
def scribbled : Machine (TrapTable ScriptedRoutine) where
  state :=
    { regs := { general := #v[7, 0, 0, 0, 0, 0, 0, 0], pc := 0x3000, condition := .negative }
      mem := Memory.zeroed.write 0x4000 7 }
  handler := TrapTable.empty.register 0x30 (.routine scribble)

theorem scribbled_get? : scribbled.handler.get? 0x30 = some (.routine scribble) :=
  TrapTable.get?_register _ _ _

theorem decode_scribble : Instruction.decode 0xF030 = .ok (some (.trap 0x30)) := rfl

theorem scribble_edits : .newMemory ∉ scribble.actions := by
  simp [scribble]

theorem scribble_fails {table : TrapTable ScriptedRoutine} {v : Byte}
    (hget : table.get? v = some (.routine scribble)) (s : State) :
    ∃ served, TrapHandler.invoke v table s = .ok served ∧ served.reply = .error .failed := by
  rw [TrapTable.invoke_registered hget]
  exact ⟨_, rfl, rfl⟩

theorem scribbled_callsEditor : scribbled.CallsEditor 0xF030 :=
  callsEditor_of_script decode_scribble scribbled_get? scribble_edits

theorem execute_atomic_scribbled :
    scribbled.CallsEditor 0xF030 ∧
      ∃ step, scribbled.execute 0xF030 = .ok step ∧
        step.result = .error (.trapRoutineFailed 0x30) ∧
        step.machine.state.regs = scribbled.state.regs ∧
        ∀ a, step.machine.state.mem.read a = scribbled.state.mem.read a := by
  obtain ⟨served, hs, hr⟩ := scribble_fails scribbled_get? scribbled.state.entry
  have hstep := (Executes.refused (by decide) decode_scribble hs hr).execute_eq
  exact ⟨scribbled_callsEditor, _, hstep, rfl,
    (execute_atomic scribbled).1 0xF030 _ _ scribbled_callsEditor hstep rfl⟩

end Machine

end Lc3
