import Lc3.Proofs.Atomicity
import Lc3.Proofs.Failure
import Lc3.Proofs.Reliability
import Lc3.Proofs.Sessions

/-! # The machine keeps the contracts of its parts

Fields have to lie inside of the word, registers have to exist: the parts of the machine check how
they are called. Words are arbitrary and decoded register numbers are plain bytes, yet no word that
is executed makes the machine break one of these contracts. What is left are the callers: a command
with a register that does not exist, and a service.

* `Instruction.registers_ofBits`: every register number of a decoded instruction exists.
* `Field.toNat_unsigned`: cutting out a field loses nothing of it.
* `Command.perform_returns`, `Command.performAll_returns`: sessions with a reliable handler.
* `execute_keeps_contracts`: all of this for every machine in such a session.
-/

namespace Lc3
set_option autoImplicit false
open Reference

/-! ## Decoded words -/

def Operand.registers : Operand → List Byte
  | register r => [r]
  | immediate _ => []

/-- The register numbers that an instruction reads or writes by. -/
def Instruction.registers : Instruction → List Byte
  | add dr sr operand | and dr sr operand => dr :: sr :: operand.registers
  | not dr sr => [dr, sr]
  | ld r _ | ldi r _ | lea r _ | st r _ | sti r _ => [r]
  | ldr r base _ | str r base _ => [r, base]
  | jmp base | jsrr base => [base]
  | br .. | jsr _ | trap _ => []

theorem Instruction.toNat_registerAt_le (word : Word) (low : Nat) :
    (registerAt word low).toNat ≤ 7 := by
  rw [toNat_registerAt]
  exact Nat.le_of_lt_succ (register word low).isLt

theorem Instruction.registers_operandBits (word : Word) :
    ∀ r ∈ (operandBits word).registers, r.toNat ≤ 7 := by
  unfold operandBits
  intro r hr
  split at hr
  · cases hr
  · obtain rfl := List.mem_singleton.1 hr
    exact toNat_registerAt_le word 0

theorem Instruction.registers_ofBits (word : Word) (op : Opcode) :
    ∀ r ∈ (ofBits word op).registers, r.toNat ≤ 7 := by
  have hat := toNat_registerAt_le word
  have hoperand := registers_operandBits word
  cases op with
  | add | and => simpa [ofBits, registers, hat] using hoperand
  | not | ld | ldi | lea | st | sti | ldr | str | jmp => simp [ofBits, registers, hat]
  | br | trap => simp [ofBits, registers]
  | jsr =>
    rw [ofBits]
    split <;> simp [registers, hat]

theorem Instruction.exists_decode (word : Word) :
    ∃ decoded, decode word = .ok decoded ∧ ∀ i ∈ decoded, ∀ r ∈ i.registers, r.toNat ≤ 7 := by
  refine ⟨_, decode_eq_ok word, fun i hi => ?_⟩
  obtain ⟨op, -, rfl⟩ := Option.map_eq_some_iff.1 hi
  exact registers_ofBits word op

theorem Field.toNat_unsigned {word field : Word} {count position : Nat}
    (h : unsigned word count position = .ok field) : field.toNat = bits word (position - 1) count := by
  unfold unsigned at h
  split at h
  · cases h
  · split at h
    · cases h
    · cases h
      rw [toNat_setWidth_field _ (by omega), toNat_extractLsb'_eq_bits]

/-! ## Steps and runs -/

namespace Machine
open TrapHandler
variable {σ : Type} [TrapHandler σ] {m m' : Machine σ}

theorem execute_returns (hm : Reliable m.handler) (word : Word) :
    ∃ step, m.execute word = .ok step := by
  cases h : m.execute word with
  | ok step => exact ⟨step, rfl⟩
  | error cause =>
    obtain ⟨-, -, hs⟩ := (execute_misuse_iff m word cause).1 h
    obtain ⟨served, hs'⟩ := hm.returns (vector word) m.state.entry
    rw [hs] at hs'
    cases hs'

theorem Executes.reliable {word : Word} {step : Step σ} (h : m.Executes word step)
    (hm : Reliable m.handler) : Reliable step.machine.handler := by
  cases h with
  | lastAddress | illegal | rejected | performed => exact hm
  | served hpc hd hs hr | refused hpc hd hs hr => exact hm.server hs

theorem step_reliable (m : Machine σ) (step : Step σ) (hm : Reliable m.handler)
    (h : m.step = .ok step) : Reliable step.machine.handler :=
  (execute_eq_ok_iff.1 h).reliable hm

theorem Moves.reliable (h : m.Moves m') (hm : Reliable m.handler) : Reliable m'.handler := by
  cases h with
  | executed h => exact h.reliable hm
  | ran h => exact h.keeps step_reliable hm
  | set => exact hm

theorem runLimit_returns (hm : Reliable m.handler) (max : Nat) :
    ∃ run, m.runLimit max = .ok run := by
  obtain ⟨run, h⟩ | ⟨cause, k, es, m', hk, hp, hs⟩ := runs_or_misuses m max
  · exact ⟨run, h.runLimit_eq⟩
  · obtain ⟨step, hs'⟩ := execute_returns (hp.keeps step_reliable hm) (m'.state.mem.read m'.pc)
    cases hs'.symm.trans hs

theorem run_returns (hm : Reliable m.handler) (fuel : Nat) : ∃ run?, m.run fuel = .ok run? := by
  obtain ⟨run, h⟩ := runLimit_returns hm fuel
  obtain ⟨trace, ht, -⟩ := bind_eq_ok.1 h
  obtain ⟨ending, steps, machine, events⟩ := trace
  unfold Machine.run
  rw [ht]
  cases ending with
  | unfinished => exact ⟨_, rfl⟩
  | halted | failed e => exact ⟨_, rfl⟩

end Machine

/-! ## Sessions -/

/-- The register that the command names exists. -/
def Command.Legal : Command → Prop
  | setRegister r _ => r.toNat ≤ 7
  | _ => True

namespace Command
open TrapHandler
variable {σ : Type} [TrapHandler σ] {m : Machine σ}

theorem perform_returns (hm : Reliable m.handler) {command : Command} (hc : command.Legal)
    (fuel : Nat) : ∃ performed, command.perform fuel m = .ok performed := by
  cases command with
  | reset | load a ws | loadImage image | setPc w | edit e => exact ⟨_, rfl⟩
  | step => exact bind_returns (Machine.execute_returns hm _) fun _ => ⟨_, rfl⟩
  | execute word => exact bind_returns (Machine.execute_returns hm word) fun _ => ⟨_, rfl⟩
  | run => exact bind_returns (Machine.run_returns hm fuel) fun _ => ⟨_, rfl⟩
  | runLimit max => exact bind_returns (Machine.runLimit_returns hm max) fun _ => ⟨_, rfl⟩
  | setRegister r w =>
    have hw : ∃ regs, m.state.regs.write r w = .ok regs :=
      ⟨_, RegisterFile.write_eq_ok w (Nat.lt_succ_of_le hc)⟩
    exact bind_returns (bind_returns hw fun _ => ⟨_, rfl⟩) fun _ => ⟨_, rfl⟩

theorem performAll_returns (fuel : Nat) {commands : List Command} (hm : Reliable m.handler)
    (hc : ∀ command ∈ commands, command.Legal) :
    ∃ reached, performAll fuel commands m = .ok reached ∧ ∀ m' ∈ reached, Reliable m'.handler := by
  induction commands generalizing m with
  | nil =>
    refine ⟨some m, rfl, fun m' hm' => ?_⟩
    cases hm'
    exact hm
  | cons command commands ih =>
    rw [List.forall_mem_cons] at hc
    obtain ⟨performed?, hp⟩ := perform_returns hm hc.1 fuel
    cases performed? with
    | none =>
      refine ⟨none, bind_eq_ok.2 ⟨none, hp, rfl⟩, fun m' hm' => ?_⟩
      cases hm'
    | some performed =>
      obtain ⟨reached, hrest, hreached⟩ := ih ((perform_moves hp).reliable hm) hc.2
      exact ⟨reached, bind_eq_ok.2 ⟨some performed, hp, hrest⟩, hreached⟩

end Command

/-- Neither a step nor the execution of any word breaks a contract, unless the service that it
calls does. So a session in which commands name existing registers and the handler is reliable
always returns, and so does every step from the machines that it comes by. Decoding reads only
fields that lie inside of the word and loses nothing of them, the registers that it finds exist,
and every address has a cell. -/
theorem Machine.execute_keeps_contracts {σ : Type} [TrapHandler σ] (m : Machine σ) :
    (∀ word cause, m.execute word = .error cause → m.pc ≠ 0xFFFF ∧ bits word 12 4 = 0xF ∧
        TrapHandler.invoke (vector word) m.handler m.state.entry = .error cause) ∧
      (TrapHandler.Reliable m.handler → ∀ fuel commands, (∀ command ∈ commands, command.Legal) →
        ∃ reached, Command.performAll fuel commands m = .ok reached ∧ ∀ m' ∈ reached,
          (∃ step, m'.step = .ok step) ∧ (∀ word, ∃ step, m'.execute word = .ok step) ∧
            m'.state.mem.cells.toArray.size = 65536) ∧
      (∀ word, ∃ decoded, Instruction.decode word = .ok decoded ∧
        ∀ i ∈ decoded, ∀ r ∈ i.registers, r.toNat ≤ 7) ∧
      ∀ word count position field, Field.unsigned word count position = .ok field →
        field.toNat = bits word (position - 1) count := by
  refine ⟨fun word cause => (execute_misuse_iff m word cause).1, fun hm fuel commands hc => ?_,
    Instruction.exists_decode, fun word count position field => Field.toNat_unsigned⟩
  obtain ⟨reached, hall, hreached⟩ := Command.performAll_returns fuel hm hc
  refine ⟨reached, hall, fun m' hm' => ⟨execute_returns (hreached m' hm') _,
    execute_returns (hreached m' hm'), Vector.size_toArray _⟩⟩

namespace Machine

theorem scribbled_reliable : TrapHandler.Reliable scribbled.handler := by
  refine TrapTable.reliable (fun _ h s => ScriptedRoutine.returns h s) ?_
  refine TrapTable.Holds.empty.register_routine 0x30 ?_
  simp [ScriptedRoutine.Legal, scribble, Action.registers]

/-- R1 is set to 5, PC is moved, and 1 is added to R1. -/
def counting : List Command :=
  [.setRegister 1 5, .setPc 0x4000, .execute 0x1261]

/-- The machine that `counting` makes of `scribbled`. -/
def counted : Machine (TrapTable ScriptedRoutine) where
  state :=
    { regs := { general := #v[7, 6, 0, 0, 0, 0, 0, 0], pc := 0x4001, condition := .positive }
      mem := scribbled.state.mem }
  handler := scribbled.handler

/-- Vector 0x30 calls a routine that writes register 8. -/
def careless : Machine (TrapTable ScriptedRoutine) where
  state := scribbled.state
  handler := TrapTable.empty.register 0x30 (.routine { actions := [.set 8 0], reply := .ok .resume })

theorem careless_invoke :
    TrapHandler.invoke 0x30 careless.handler careless.state.entry = .error (.writeRegister 8) := by
  rw [careless, TrapTable.invoke_registered (TrapTable.get?_register _ _ _)]
  rfl

/-- Whatever is executed after the commands, the routine of vector 0x30 included, returns. A service
that writes register 8 breaks a contract, and nothing else does in the step that calls it. -/
theorem execute_keeps_contracts_scribbled :
    TrapHandler.Reliable scribbled.handler ∧ (∀ command ∈ counting, command.Legal) ∧
      Command.performAll 0 counting scribbled = .ok (some counted) ∧
      (∀ word, ∃ step, counted.execute word = .ok step) ∧
      careless.execute 0xF030 = .error (.writeRegister 8) ∧
      TrapHandler.invoke (vector 0xF030) careless.handler careless.state.entry =
        .error (.writeRegister 8) ∧
      Field.unsigned 0xF030 8 1 = .ok 0x30 ∧ (0x30 : Word).toNat = bits 0xF030 0 8 := by
  have hlegal : ∀ command ∈ counting, command.Legal := by simp [counting, Command.Legal]
  have hcounted : Command.performAll 0 counting scribbled = .ok (some counted) := rfl
  obtain ⟨-, hreturns, -, hfields⟩ := execute_keeps_contracts scribbled
  obtain ⟨reached, hreached, hafter⟩ := hreturns scribbled_reliable 0 counting hlegal
  obtain rfl : some counted = reached := Except.ok.inj (hcounted.symm.trans hreached)
  have hcareless : careless.execute 0xF030 = .error (.writeRegister 8) :=
    (execute_misuse_iff careless 0xF030 _).2 ⟨by decide, rfl, careless_invoke⟩
  exact ⟨scribbled_reliable, hlegal, hcounted, (hafter counted rfl).2.1, hcareless,
    ((execute_keeps_contracts careless).1 0xF030 _ hcareless).2.2, rfl, hfields 0xF030 8 1 _ rfl⟩

end Machine

end Lc3
