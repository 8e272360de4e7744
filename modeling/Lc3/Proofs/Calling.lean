import Lc3.Proofs.Editing
import Lc3.Proofs.Refinement

/-! # How a TRAP calls its service

R7 is the only thing that a TRAP and its service agree on: it holds the return address when the
service is entered, and the address to go on at when the service is done.

* `State.config_entry`, `State.config_resumed`: the states around the service as numbers.
* `execute_trap`: the convention for a service that completes.
-/

namespace Lc3
set_option autoImplicit false
open Reference

namespace State
variable {s : State}

theorem config_entry (hpc : s.regs.pc ≠ 0xFFFF) : s.entry.config = s.config.link.advance := by
  have hnext : (s.regs.pc + 1).toNat = s.regs.pc.toNat + 1 := toNat_next_pc hpc
  have hset := reg_set s.regs.general 7 (s.regs.pc + 1)
  rw [hnext] at hset
  rw [config, Config.advance, Config.link, Config.mk.injEq]
  exact ⟨hset, hnext, rfl, rfl⟩

theorem config_resumed : s.resumed.config = s.config.goto (s.config.reg 7) := rfl

end State

namespace Machine
variable {σ : Type} [TrapHandler σ]

/-- The service of a TRAP is entered with the return address in R7 and PC, and with everything else
as it was. If it completes, the machine continues or halts as the service says, everything is as
the service left it, and PC is the R7 that it left, for a halt too and whatever it did to PC. There
is no other way for a TRAP to succeed. -/
theorem execute_trap (m : Machine σ) (word : Word) (hpc : m.pc ≠ 0xFFFF)
    (hop : bits word 12 4 = 0xF) :
    m.state.entry.config =
        { m.state.config with
          reg := Function.update m.state.config.reg 7 (m.state.config.pc + 1)
          pc := m.state.config.pc + 1 } ∧
      (∀ served verdict,
        TrapHandler.invoke (vector word) m.handler m.state.entry = .ok served →
        served.reply = .ok verdict →
          ∃ step, m.execute word = .ok step ∧
            step.result = .ok (if verdict = .halt then .halted else .proceed) ∧
            step.machine.handler = served.server ∧
            step.machine.state.config =
              { served.state.config with pc := served.state.config.reg 7 }) ∧
      ∀ step outcome, m.execute word = .ok step → step.result = .ok outcome →
        ∃ served verdict,
          TrapHandler.invoke (vector word) m.handler m.state.entry = .ok served ∧
            served.reply = .ok verdict := by
  have hd := decode_eq_trap word hop
  refine ⟨State.config_entry hpc, fun served verdict hs hr => ?_, fun step outcome h ho => ?_⟩
  · refine ⟨_, (Executes.served hpc hd hs hr).execute_eq, ?_, rfl, State.config_resumed⟩
    cases verdict <;> rfl
  · cases execute_eq_ok_iff.1 h with
    | lastAddress | illegal | rejected | refused => cases ho
    | performed hpc' hd' hv =>
      rw [hd] at hd'
      cases hd'
      cases hv
    | served hpc' hd' hs hr =>
      rw [hd] at hd'
      cases hd'
      exact ⟨_, _, hs, hr⟩

/-- A routine that puts other registers and another memory in place of the machine's, and moves
both R7 and PC. -/
def takeover : ScriptedRoutine where
  actions := [.newMemory, .poke 0x4000 5, .newRegisters, .set 7 0x4321, .setPc 0x1111]
  reply := .ok .halt

/-- Vector 0x30 calls `takeover`. -/
def overtaken : Machine (TrapTable ScriptedRoutine) :=
  (withHandler (TrapTable.empty.register 0x30 (.routine takeover))).setPc 0x3000

theorem execute_trap_overtaken :
    overtaken.pc ≠ 0xFFFF ∧ bits 0xF030 12 4 = 0xF ∧
      ∃ step, overtaken.execute 0xF030 = .ok step ∧ step.result = .ok .halted ∧
        step.machine.pc = 0x4321 ∧ step.machine.state.mem.read 0x4000 = 5 := by
  have hget : overtaken.handler.get? 0x30 = some (.routine takeover) :=
    TrapTable.get?_register _ _ _
  have hpc : overtaken.pc ≠ 0xFFFF := by decide
  obtain ⟨-, hcall, -⟩ := execute_trap overtaken 0xF030 hpc rfl
  have hs : ∃ served,
      TrapHandler.invoke (vector 0xF030) overtaken.handler overtaken.state.entry = .ok served ∧
        served.reply = .ok .halt ∧ served.state.regs.link = 0x4321 ∧
        served.state.mem = Memory.zeroed.write 0x4000 5 := by
    rw [show vector 0xF030 = 0x30 from rfl, TrapTable.invoke_registered hget]
    exact ⟨_, rfl, rfl, rfl, rfl⟩
  obtain ⟨served, hs, hr, hlink, hmem⟩ := hs
  obtain ⟨step, hstep, hres, -, hc⟩ := hcall served .halt hs hr
  refine ⟨hpc, rfl, step, hstep, hres, ?_, BitVec.eq_of_toNat_eq ?_⟩
  · refine BitVec.eq_of_toNat_eq ((congrArg Config.pc hc).trans ?_)
    exact congrArg BitVec.toNat hlink
  · rw [← State.mem_config, hc]
    refine (State.mem_config served.state 0x4000).trans ?_
    rw [hmem, Memory.read_write_self]

end Machine

end Lc3
