import Lc3.Proofs.Calls
import Lc3.Proofs.Results
import Lc3.Proofs.Significance

/-! # Straight-line code cannot run away

PC goes up by one with every instruction of a program that neither jumps nor stores nor calls a
service. There is no address behind the last one and no wrapping around to the first, so such a
program comes to a failure. What bounds its run is the distance of PC to the last address.

* `Reference.NeverTaken`, `Reference.Advances`, `Reference.OnRegisters`: the instructions of such a
  program, and those of them that form no address.
* `Machine.Ahead`: what the words are like that PC still has in front of it.
* `Executes.mem_eq`: only stores and services change the memory.
* `step_advances`: one instruction. `Proceeds.passes`, `exists_failure`: any number of them, and the
  one that fails.
* `straight_line_fails`: the whole run.
-/

namespace Lc3
set_option autoImplicit false
open Reference

/-! ## Instructions that go on behind themselves -/

namespace Reference

/-- A BR that no condition code takes. -/
def NeverTaken (w : Word) : Prop :=
  bits w 12 4 = 0x0 ∧ bits w 11 1 = 0 ∧ bits w 10 1 = 0 ∧ bits w 9 1 = 0

/-- ADD, AND, NOT, LD, LDI, LDR, LEA, or a BR that no condition code takes. -/
def Advances (w : Word) : Prop :=
  HasResult w ∨ NeverTaken w

/-- ADD, AND, NOT, or a BR that no condition code takes. -/
def OnRegisters (w : Word) : Prop :=
  bits w 12 4 ∈ [0x1, 0x5, 0x9] ∨ NeverTaken w

instance (w : Word) : Decidable (NeverTaken w) :=
  inferInstanceAs (Decidable (_ ∧ _))

instance (w : Word) : Decidable (Advances w) :=
  inferInstanceAs (Decidable (_ ∨ _))

instance (w : Word) : Decidable (OnRegisters w) :=
  inferInstanceAs (Decidable (_ ∨ _))

variable {w : Word}

theorem NeverTaken.selects_eq (h : NeverTaken w) (c : Config) : selects w c = false := by
  obtain ⟨-, hn, hz, hp⟩ := h
  unfold selects
  cases c.cond with
  | negative => exact decide_eq_false (by omega)
  | zero => exact decide_eq_false (by omega)
  | positive => exact decide_eq_false (by omega)

theorem OnRegisters.advances (h : OnRegisters w) : Advances w := by
  refine h.imp_left fun hop => ?_
  simp only [List.mem_cons, List.not_mem_nil, or_false] at hop
  simp only [HasResult, List.mem_cons, List.not_mem_nil, or_false]
  omega

theorem OnRegisters.target_eq (h : OnRegisters w) (c : Config) : target w c = none := by
  rcases h with hop | hbr
  · simp only [List.mem_cons, List.not_mem_nil, or_false] at hop
    rcases hop with hop | hop | hop
    all_goals simp only [target, hop]
  · simp only [target, hbr.1, hbr.selects_eq c, Bool.false_eq_true, if_false]

/-- Such an instruction is legal, stores nothing and calls no service. -/
theorem Advances.opcode (h : Advances w) :
    (bits w 12 4 ≠ 0x8 ∧ bits w 12 4 ≠ 0xD ∧ bits w 12 4 ≠ 0xF) ∧
      bits w 12 4 ∉ [0x3, 0x7, 0xB, 0xF] := by
  simp only [Advances, HasResult, NeverTaken, List.mem_cons, List.not_mem_nil, or_false] at h ⊢
  omega

theorem Advances.pc_next (h : Advances w) (c : Config) : (next w c).pc = c.pc + 1 := by
  rcases h with hres | hbr
  · obtain ⟨v, hv⟩ := exists_next_eq_result hres c
    rw [hv]
    rfl
  · simp only [next, hbr.1, hbr.selects_eq c, Bool.false_eq_true, if_false]
    rfl

end Reference

/-! ## The memory after an execution -/

theorem Instruction.store_effect {i : Instruction} {regs : RegisterFile} {mem : Memory}
    {eff : Effect} (h : i.effect regs mem = .ok eff) (hi : i.opcode ∉ [.st, .sti, .str]) :
    eff.store = none := by
  cases i with
  | st | sti | str => exact absurd (by simp [opcode]) hi
  | trap vector =>
    cases h
    rfl
  | br n z p offset =>
    rw [effect] at h
    split at h
    · obtain ⟨target, -, h⟩ := bind_eq_ok.1 h
      cases h
      rfl
    · cases h
      rfl
  | add dr sr operand | and dr sr operand | jmp base | jsr offset | jsrr base =>
    obtain ⟨a, -, h⟩ := bind_eq_ok.1 h
    cases h
    rfl
  | not dr sr | ld dr offset | ldi dr offset | lea dr offset =>
    obtain ⟨a, -, h⟩ := bind_eq_ok.1 h
    obtain ⟨b, -, h⟩ := bind_eq_ok.1 h
    cases h
    rfl
  | ldr dr base offset =>
    obtain ⟨a, -, h⟩ := bind_eq_ok.1 h
    obtain ⟨b, -, h⟩ := bind_eq_ok.1 h
    obtain ⟨c, -, h⟩ := bind_eq_ok.1 h
    cases h
    rfl

namespace Machine
variable {σ : Type} [TrapHandler σ] {m m' : Machine σ}

/-- Whatever is no store and no TRAP leaves the memory as it is. -/
theorem Executes.mem_eq {word : Word} {step : Step σ} (h : m.Executes word step)
    (hop : bits word 12 4 ∉ [0x3, 0x7, 0xB, 0xF]) : step.machine.state.mem = m.state.mem := by
  cases h with
  | lastAddress | illegal | rejected => rfl
  | performed hpc hd hv he =>
    obtain ⟨op, hw, rfl⟩ := Instruction.decode_eq_some_iff.1 hd
    have hstore : (Instruction.ofBits word op).opcode ∉ [.st, .sti, .str] := by
      rw [(ofWord?_eq_some_iff word).1 hw] at hop
      rw [Instruction.opcode_ofBits]
      revert hop
      cases op <;> decide
    simp only [State.commit, Instruction.store_effect he hstore]
  | served hpc hd hs hr | refused hpc hd hs hr =>
    rw [((decode_eq_trap_iff word).1 hd).1] at hop
    exact absurd (by decide) hop

/-! ## One instruction -/

/-- All words from PC to the last address but one. -/
def Ahead (P : Word → Prop) (m : Machine σ) : Prop :=
  ∀ a : Word, m.pc ≤ a → a < 0xFFFF → P (m.state.mem.read a)

/-- `m'` is `m` after `i` instructions of a straight line, up to registers and condition code. -/
structure Passes (m : Machine σ) (i : Nat) (m' : Machine σ) : Prop where
  pc : m'.pc.toNat = m.pc.toNat + i
  mem : m'.state.mem = m.state.mem
  handler : m'.handler = m.handler

omit [TrapHandler σ] in
theorem Passes.refl (m : Machine σ) : m.Passes 0 m :=
  ⟨rfl, rfl, rfl⟩

omit [TrapHandler σ] in
theorem Passes.trans {m'' : Machine σ} {i j : Nat} (h : m.Passes i m') (h' : m'.Passes j m'') :
    m.Passes (i + j) m'' where
  pc := by rw [h'.pc, h.pc, Nat.add_assoc]
  mem := h'.mem.trans h.mem
  handler := h'.handler.trans h.handler

omit [TrapHandler σ] in
theorem Passes.ahead {P : Word → Prop} {i : Nat} (h : m.Passes i m') (hm : m.Ahead P) :
    m'.Ahead P := by
  intro a hle hlt
  have hpc := h.pc
  rw [h.mem]
  exact hm a (by rw [BitVec.le_def] at hle ⊢; omega) hlt

omit [TrapHandler σ] in
theorem Ahead.fetch {P : Word → Prop} (hm : m.Ahead P) (hpc : m.pc ≠ 0xFFFF) : P m.fetch :=
  hm m.pc (BitVec.le_refl _) (by bv_omega)

theorem step_advances (hm : m.Ahead Advances) (hpc : m.pc ≠ 0xFFFF) :
    ∃ step, m.step = .ok step ∧
      (step.result = .ok .proceed ∧ m.Passes 1 step.machine ∨
        ∃ x ∈ target m.fetch m.state.config, ¬InSpace x ∧
          step.result = .error (.addressOutOfRange x) ∧ step.machine = m) := by
  have hw := hm.fetch hpc
  obtain ⟨step, hs, hhandler, ⟨-, hr, hc⟩ | hfail⟩ := executes_plain hpc hw.opcode.1
  · refine ⟨step, hs.execute_eq, .inl ⟨hr, ?_, hs.mem_eq hw.opcode.2, hhandler⟩⟩
    exact (congrArg Config.pc hc).trans (hw.pc_next _)
  · exact ⟨step, hs.execute_eq, .inr hfail⟩

/-! ## Any number of instructions -/

theorem Proceeds.passes {i : Nat} {es : List Event} (h : m.Proceeds i es m')
    (hm : m.Ahead Advances) : m.Passes i m' := by
  induction h with
  | refl m => exact .refl m
  | @head m m' first i es hs hr _ ih =>
    have hpc : m.pc ≠ 0xFFFF := by
      intro hpc
      cases (Executes.lastAddress hpc).execute_eq.symm.trans hs
      cases hr
    obtain ⟨step, hs', ⟨-, hstep⟩ | ⟨x, -, -, hr', -⟩⟩ := step_advances hm hpc
    · cases hs.symm.trans hs'
      have hall := hstep.trans (ih (hstep.ahead hm))
      rw [Nat.add_comm] at hall
      exact hall
    · cases hs.symm.trans hs'
      cases hr.symm.trans hr'

/-- The induction is on the number of addresses behind PC. -/
theorem exists_failure (hm : m.Ahead Advances) :
    ∃ k es m' last x, m.Proceeds k es m' ∧ m'.step = .ok last ∧
      last.result = .error (.addressOutOfRange x) ∧ ¬InSpace x ∧ last.machine = m' := by
  induction hn : 65535 - m.pc.toNat generalizing m with
  | zero =>
    have hpc : m.pc = 0xFFFF := by bv_omega
    exact ⟨0, [], m, _, 0x10000, .refl m, (Executes.lastAddress hpc).execute_eq, rfl, by decide, rfl⟩
  | succ n ih =>
    have hpc : m.pc ≠ 0xFFFF := by bv_omega
    obtain ⟨step, hs, ⟨hr, hstep⟩ | ⟨x, -, hout, hr, hmachine⟩⟩ := step_advances hm hpc
    · have hless : 65535 - step.machine.pc.toNat = n := by
        rw [hstep.pc]
        omega
      obtain ⟨k, es, m', last, x, hp, hlast⟩ := ih (hstep.ahead hm) hless
      exact ⟨k + 1, _, m', last, x, .head hs hr hp, hlast⟩
    · exact ⟨0, [], m, step, x, .refl m, hs, hr, hout, hmachine⟩

/-- Without an address to form, only the end of the address space is left to fail at. -/
theorem failure_onRegisters (hm : m.Ahead OnRegisters) {last : Step σ} {x : Int}
    (hs : m.step = .ok last) (hr : last.result = .error (.addressOutOfRange x)) :
    m.pc = 0xFFFF ∧ x = 65536 := by
  by_cases hpc : m.pc = 0xFFFF
  · cases (Executes.lastAddress hpc).execute_eq.symm.trans hs
    cases hr
    exact ⟨hpc, rfl⟩
  · have hm' : m.Ahead Advances := fun a hle hlt => (hm a hle hlt).advances
    obtain ⟨step, hs', ⟨hr', -⟩ | ⟨y, hy, -⟩⟩ := step_advances hm' hpc
    · cases hs.symm.trans hs'
      cases hr.symm.trans hr'
    · rw [(hm.fetch hpc).target_eq] at hy
      cases hy

theorem traps_advances (hm : m.Ahead Advances) (n : Nat) : Execution.traps (m.executions n) = [] := by
  refine List.filter_eq_nil_iff.2 fun e he => ?_
  obtain ⟨i, es, -, hp, -, hword⟩ := exists_proceeds_of_mem he
  have hbefore := (hp.passes hm).ahead hm
  rw [decide_eq_true_iff]
  rintro ⟨hpc, hop⟩
  rw [hword] at hop
  exact (hbefore.fetch hpc).opcode.1.2.2 hop

/-! ## The run -/

/-- A program that only computes fails with an address that does not exist, after at most as many
instructions as there are addresses behind PC. Every one of them moves PC to the next address,
memory stays as it is, no service is called, and a limit that the program does not reach makes no
difference. If no instruction forms an address, it is the last address where the program fails. -/
theorem straight_line_fails (m : Machine σ) (hm : m.Ahead Advances) :
    ∃ k x run, k ≤ 65535 - m.pc.toNat ∧
      run.result = .error (.addressOutOfRange x) ∧ ¬InSpace x ∧ m.Passes k run.machine ∧
      (∀ max, k < max → m.runLimit max = .ok run ∧ m.run max = .ok (some run)) ∧
      (∀ max ≤ k, ∃ cut, m.runLimit max = .ok cut ∧ cut.result = .ok (.limitReached max) ∧
        m.Passes max cut.machine) ∧
      (∀ max, Execution.traps (m.executions max) = []) ∧
      (m.Ahead OnRegisters →
        k = 65535 - m.pc.toNat ∧ x = 65536 ∧ run.machine.pc = 0xFFFF) := by
  obtain ⟨k, es, m', last, x, hp, hs, hr, hout, rfl⟩ := exists_failure hm
  have hpasses := hp.passes hm
  have hk : k ≤ 65535 - m.pc.toNat := by
    have hpc := hpasses.pc
    have hlt := last.machine.pc.isLt
    omega
  obtain ⟨run, hresult, hmachine, hruns⟩ := hp.exists_failed hs hr
  refine ⟨k, x, run, hk, hresult, hout, by rwa [hmachine], hruns, fun max hmax => ?_,
    traps_advances hm, fun honly => ?_⟩
  · obtain ⟨es', m'', hp'⟩ := hp.take hmax
    exact ⟨_, (Runs.limited hp').runLimit_eq, rfl, hp'.passes hm⟩
  · obtain ⟨hpc, hx⟩ := failure_onRegisters (hpasses.ahead honly) hs hr
    have hlast := hpasses.pc
    rw [hpc] at hlast
    rw [hmachine]
    exact ⟨(Nat.sub_eq_of_eq_add' hlast).symm, hx, hpc⟩

/-- From address 0 of a zeroed memory, whose words are BRs that are never taken, it is exactly the
instruction number 65536 that fails. -/
theorem straight_line_fails_standard :
    let m : Machine (TrapTable ScriptedRoutine) := standard
    m.Ahead Advances ∧ m.Ahead OnRegisters ∧
      (∃ cut, m.runLimit 65535 = .ok cut ∧ cut.result = .ok (.limitReached 65535)) ∧
      ∃ run, m.runLimit 65536 = .ok run ∧ m.run 65536 = .ok (some run) ∧
        run.result = .error (.addressOutOfRange 65536) ∧ run.machine.pc = 0xFFFF ∧
        run.machine.state.mem = Memory.zeroed := by
  intro m
  have honly : m.Ahead OnRegisters := by
    intro a _ _
    have hread : m.state.mem.read a = 0 := Memory.read_zeroed a
    rw [hread]
    decide
  have hm : m.Ahead Advances := fun a hle hlt => (honly a hle hlt).advances
  obtain ⟨k, x, run, -, hr, -, hpasses, hruns, hcuts, -, hend⟩ := straight_line_fails m hm
  obtain ⟨rfl, rfl, hpc⟩ := hend honly
  obtain ⟨cut, hcut, hcutResult, -⟩ := hcuts 65535 (Nat.le_refl _)
  obtain ⟨hlimit, hrun⟩ := hruns 65536 (Nat.lt_succ_self _)
  exact ⟨hm, honly, ⟨cut, hcut, hcutResult⟩, run, hlimit, hrun, hr, hpc, hpasses.mem⟩

end Machine
end Lc3
