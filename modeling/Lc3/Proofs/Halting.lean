import Lc3.Proofs.Calling
import Lc3.Proofs.Calls
import Lc3.Proofs.Contracts
import Lc3.Proofs.Results

/-! # When the standard machine halts

The only service of a standard machine is the one that halts it. So the TRAPs of a program decide
how its run ends: the first that is executed is the last instruction of the run, and it halts the
machine if its vector is 0x25.

* `Reference.IsHalt`: the words that halt, whatever their bits 11 to 8.
* `TrapTable.invoke_withHalt`: the table with the halting service only.
* `Machine.trapResult`, `executes_trap_withHalt`: the result of a TRAP on this table.
  `Executes.withHalt`: it stays this table.
* `Machine.HaltsAt`: a program comes to a word that halts.
* `runLimit_halts_iff`, `run_halts_iff`: its runs halt there, and no others do.
* `Proceeds.unhandled`, `not_isTrap_of_mem_dropLast`: the other TRAPs, and how many a run executes.
* `standard_halts`: the account of all runs.
-/

namespace Lc3
set_option autoImplicit false
open Reference

/-! ## The halting service -/

namespace Reference

/-- The word is a TRAP of vector 0x25. -/
def IsHalt (w : Word) : Prop :=
  bits w 12 4 = 0xF ∧ bits w 0 8 = 0x25

instance (w : Word) : Decidable (IsHalt w) :=
  inferInstanceAs (Decidable (_ ∧ _))

theorem isHalt_iff {w : Word} (hop : bits w 12 4 = 0xF) : IsHalt w ↔ vector w = 0x25 := by
  have hlt : bits w 0 8 < 2 ^ 8 := Nat.mod_lt _ (by decide)
  rw [IsHalt, and_iff_right hop, ← BitVec.toNat_inj, vector, BitVec.toNat_ofNat,
    Nat.mod_eq_of_lt hlt]
  rfl

/-- The return address of a call is where its TRAP has left PC. -/
theorem Config.goto_link (c : Config) :
    c.link.advance.goto (c.link.advance.reg 7) = c.link.advance := by
  have hreturn : c.link.advance.reg 7 = c.pc + 1 := by
    simp only [link, advance, Function.update_self]
  rw [hreturn]
  rfl

end Reference

namespace TrapTable
variable {ρ : Type}

theorem get?_withHalt (v : Byte) :
    (withHalt : TrapTable ρ).get? v = if v = 0x25 then some .halt else none := by
  rw [withHalt, register, get?_set, get?_empty]
  rfl

theorem set_get? (table : TrapTable ρ) (v : Byte) : table.set v (table.get? v) = table := by
  obtain ⟨services⟩ := table
  exact congrArg mk (Vector.set_getElem_self _)

/-- Every call leaves registers, memory and the table itself as they are. -/
theorem invoke_withHalt [ServiceRoutine ρ] (v : Byte) (s : State) :
    TrapHandler.invoke v (withHalt : TrapTable ρ) s =
      .ok
        { reply := if v = 0x25 then .ok .halt else .error .unregistered
          server := withHalt
          state := s } := by
  have hget := get?_withHalt (ρ := ρ) v
  by_cases hv : v = 0x25
  · rw [if_pos hv] at hget
    have hset := set_get? (withHalt : TrapTable ρ) v
    rw [hget] at hset
    rw [invoke_registered hget, if_pos hv]
    simp only [Service.call, Except.map, hset]
  · rw [if_neg hv] at hget
    rw [invoke_unregistered hget, if_neg hv]

theorem withHalt_reliable [ServiceRoutine ρ] : TrapHandler.Reliable (withHalt : TrapTable ρ) := by
  refine .of_invariant (P := (· = withHalt)) (fun table htable v s => ?_) rfl
  rw [htable]
  exact ⟨_, invoke_withHalt v s, rfl⟩

end TrapTable

namespace Machine
variable {ρ : Type} [ServiceRoutine ρ] {m m' : Machine (TrapTable ρ)} {word : Word}
  {step : Step (TrapTable ρ)}

/-! ## One instruction -/

/-- The result of the TRAP `word` at `address`. -/
def trapResult (address word : Word) : Except ExecutionError Outcome :=
  if IsHalt word then .ok .halted else .error (.unhandledTrap (vector word) address)

theorem executes_trap_withHalt (hm : m.handler = .withHalt) (hpc : m.pc ≠ 0xFFFF)
    (hop : bits word 12 4 = 0xF) :
    ∃ step, m.Executes word step ∧ step.result = trapResult m.pc word ∧
      (IsHalt word → step.machine.state.config = m.state.config.link.advance) := by
  have hd := decode_eq_trap word hop
  have hs := TrapTable.invoke_withHalt (ρ := ρ) (vector word) m.state.entry
  rw [← hm] at hs
  by_cases hv : vector word = 0x25
  · refine ⟨_, .served hpc hd hs (if_pos hv), ?_, fun _ => ?_⟩
    · rw [trapResult, if_pos ((isHalt_iff hop).2 hv)]
      rfl
    · have hresumed := State.config_resumed (s := m.state.entry)
      rw [State.config_entry hpc] at hresumed
      exact hresumed.trans (Config.goto_link _)
  · have hno : ¬IsHalt word := fun h => hv ((isHalt_iff hop).1 h)
    refine ⟨_, .refused hpc hd hs (if_neg hv), ?_, fun h => absurd h hno⟩
    rw [trapResult, if_neg hno]
    rfl

/-- Whatever is executed, the table stays. -/
theorem Executes.withHalt (h : m.Executes word step) (hm : m.handler = .withHalt) :
    step.machine.handler = .withHalt := by
  obtain ⟨htrap, hother⟩ := h.handler_eq
  by_cases ht : Execution.IsTrap { before := m, word, step }
  · obtain ⟨served, hs, hserver⟩ := htrap ht
    rw [hm, TrapTable.invoke_withHalt] at hs
    cases hs
    exact hserver
  · exact (hother ht).trans hm

theorem reliable_withHalt (hm : m.handler = .withHalt) : TrapHandler.Reliable m.handler := by
  rw [hm]
  exact TrapTable.withHalt_reliable

theorem step_withHalt (m : Machine (TrapTable ρ)) (step : Step (TrapTable ρ))
    (hm : m.handler = .withHalt) (hs : m.step = .ok step) : step.machine.handler = .withHalt :=
  (execute_eq_ok_iff.1 hs).withHalt hm

theorem Moves.withHalt (m m' : Machine (TrapTable ρ)) (hm : m.handler = .withHalt)
    (h : m.Moves m') : m'.handler = .withHalt := by
  cases h with
  | executed h => exact h.withHalt hm
  | ran h => exact h.keeps step_withHalt hm
  | set => exact hm

/-- A TRAP has this result wherever it is executed, unless it stands at the last address. -/
theorem Executes.result_eq_of_trap (h : m.Executes word step) (hm : m.handler = .withHalt)
    (ht : Execution.IsTrap { before := m, word, step }) : step.result = trapResult m.pc word := by
  obtain ⟨step', h', hr, -⟩ := executes_trap_withHalt hm ht.1 ht.2
  rw [h.eq_of_executes h', hr]

/-- Nothing but a TRAP halts a machine. -/
theorem Executes.isTrap_of_halted {σ : Type} [TrapHandler σ] {m : Machine σ} {step : Step σ}
    (h : m.Executes word step) (hr : step.result = .ok .halted) :
    Execution.IsTrap { before := m, word, step } := by
  cases h with
  | lastAddress | illegal | rejected | performed | refused => cases hr
  | served hpc hd => exact ⟨hpc, ((decode_eq_trap_iff word).1 hd).1⟩

theorem Executes.halted_iff (h : m.Executes word step) (hm : m.handler = .withHalt) :
    step.result = .ok .halted ↔ m.pc ≠ 0xFFFF ∧ IsHalt word := by
  constructor
  · intro hr
    have ht := h.isTrap_of_halted hr
    have hresult := h.result_eq_of_trap hm ht
    by_cases hw : IsHalt word
    · exact ⟨ht.1, hw⟩
    · rw [hr, trapResult, if_neg hw] at hresult
      cases hresult
  · rintro ⟨hpc, hw⟩
    rw [h.result_eq_of_trap hm ⟨hpc, hw.1⟩, trapResult, if_pos hw]

theorem Executes.config_of_halt (h : m.Executes word step) (hm : m.handler = .withHalt)
    (hpc : m.pc ≠ 0xFFFF) (hw : IsHalt word) :
    step.machine.state.config = m.state.config.link.advance := by
  obtain ⟨step', h', -, hc⟩ := executes_trap_withHalt hm hpc hw.1
  rw [h.eq_of_executes h', hc hw]

/-! ## Runs -/

/-- After `k` instructions, all of which proceed, the machine is `last` and comes to a word that
halts. -/
structure HaltsAt (m : Machine (TrapTable ρ)) (k : Nat) (last : Machine (TrapTable ρ)) : Prop where
  proceeds : ∃ es, m.Proceeds k es last
  pc : last.pc ≠ 0xFFFF
  word : IsHalt last.fetch

variable {max k : Nat} {run : Run (TrapTable ρ)}

theorem Runs.haltsAt (h : m.Runs max run) (hm : m.handler = .withHalt)
    (hr : run.result = .ok (.halted k)) :
    1 ≤ k ∧ k ≤ max ∧ ∃ last, m.HaltsAt (k - 1) last ∧
      run.machine.state.config = last.state.config.link.advance := by
  cases h with
  | failed | limited => cases hr
  | @halted j es m' last hj hp hs hlast =>
    cases hr
    have hm' := hp.keeps step_withHalt hm
    have hexec := execute_eq_ok_iff.1 hs
    obtain ⟨hpc, hw⟩ := (hexec.halted_iff hm').1 hlast
    exact ⟨Nat.succ_pos j, hj, m', ⟨⟨es, hp⟩, hpc, hw⟩, hexec.config_of_halt hm' hpc hw⟩

theorem HaltsAt.runs {last : Machine (TrapTable ρ)} (h : m.HaltsAt k last)
    (hm : m.handler = .withHalt) :
    ∃ run, run.result = .ok (.halted (k + 1)) ∧ ∀ max, k < max → m.Runs max run := by
  obtain ⟨⟨es, hp⟩, hpc, hw⟩ := h
  have hlast := hp.keeps step_withHalt hm
  obtain ⟨step, hs⟩ := execute_returns (reliable_withHalt hlast) last.fetch
  have hr := ((execute_eq_ok_iff.1 hs).halted_iff hlast).2 ⟨hpc, hw⟩
  exact ⟨_, rfl, fun max hk => .halted hk hp hs hr⟩

theorem runLimit_halts_iff (hm : m.handler = .withHalt) (h : m.runLimit max = .ok run) (k : Nat) :
    run.result = .ok (.halted k) ↔ 1 ≤ k ∧ k ≤ max ∧ ∃ last, m.HaltsAt (k - 1) last := by
  constructor
  · intro hr
    obtain ⟨hpos, hle, last, hlast, -⟩ := (runLimit_eq_ok_iff.1 h).haltsAt hm hr
    exact ⟨hpos, hle, last, hlast⟩
  · rintro ⟨hpos, hle, last, hlast⟩
    obtain ⟨run', hr, hruns⟩ := hlast.runs hm
    cases h.symm.trans (hruns max (by omega)).runLimit_eq
    rw [hr, Nat.sub_add_cancel hpos]

theorem run_halts_iff (hm : m.handler = .withHalt) (k : Nat) :
    (∃ fuel run, m.run fuel = .ok (some run) ∧ run.result = .ok (.halted k)) ↔
      1 ≤ k ∧ ∃ last, m.HaltsAt (k - 1) last := by
  constructor
  · rintro ⟨fuel, run, hrun, hr⟩
    obtain ⟨hpos, -, hlast⟩ := (runLimit_halts_iff hm (run_eq_some_iff.1 hrun).1 k).1 hr
    exact ⟨hpos, hlast⟩
  · rintro ⟨hpos, last, hlast⟩
    obtain ⟨run, hr, hruns⟩ := hlast.runs hm
    rw [Nat.sub_add_cancel hpos] at hr
    refine ⟨k, run, run_eq_some_iff.2 ⟨(hruns k (by omega)).runLimit_eq, fun n hn => ?_⟩, hr⟩
    cases hr.symm.trans hn

/-- A TRAP of another vector ends the run, however many instructions were executed before. -/
theorem Proceeds.unhandled {es : List Event} (hp : m.Proceeds k es m') (hm : m.handler = .withHalt)
    (hpc : m'.pc ≠ 0xFFFF) (hop : bits m'.fetch 12 4 = 0xF) (hno : ¬IsHalt m'.fetch) :
    ∃ run, run.result = .error (.unhandledTrap (vector m'.fetch) m'.pc) ∧
      ∀ max, k < max → m.runLimit max = .ok run ∧ m.run max = .ok (some run) := by
  obtain ⟨last, h, hr, -⟩ := executes_trap_withHalt (hp.keeps step_withHalt hm) hpc hop
  rw [trapResult, if_neg hno] at hr
  obtain ⟨run, hresult, -, hruns⟩ := hp.exists_failed h.execute_eq hr
  exact ⟨run, hresult, hruns⟩

theorem executions_trap (hm : m.handler = .withHalt) {e : Execution (TrapTable ρ)}
    (he : e ∈ m.executions max) (ht : e.IsTrap) :
    e.step.result = trapResult e.before.pc e.word := by
  obtain ⟨i, es, -, hp, hs, hword⟩ := exists_proceeds_of_mem he
  have hexec : e.before.Executes e.word e.step := by
    rw [hword]
    exact execute_eq_ok_iff.1 hs
  exact hexec.result_eq_of_trap (hp.keeps step_withHalt hm) ht

/-- No TRAP proceeds, so a run ends with the first that it executes. -/
theorem not_isTrap_of_mem_dropLast (hm : m.handler = .withHalt) {e : Execution (TrapTable ρ)}
    (he : e ∈ (m.executions max).dropLast) : ¬e.IsTrap := by
  intro ht
  have hproceed := proceeding_dropLast m max e he
  rw [executions_trap hm (List.mem_of_mem_dropLast he) ht, trapResult] at hproceed
  split at hproceed
  · cases hproceed
  · cases hproceed

/-- A standard machine halts after `k` instructions iff the first `k - 1` proceed and the next one is
a TRAP of vector 0x25 that does not stand at the last address. Then PC and R7 are behind that TRAP
and everything else is as it was. Any other TRAP fails and ends its run, so no run executes two. As
nothing but its user changes the table, this is so at every moment of a session. -/
theorem standard_halts (m : Machine (TrapTable ρ)) (hm : m.handler = .withHalt) :
    (∀ max, ∃ run, m.runLimit max = .ok run ∧ ∀ k, run.result = .ok (.halted k) ↔
        1 ≤ k ∧ k ≤ max ∧ ∃ last, m.HaltsAt (k - 1) last) ∧
      (∀ k, (∃ fuel run, m.run fuel = .ok (some run) ∧ run.result = .ok (.halted k)) ↔
        1 ≤ k ∧ ∃ last, m.HaltsAt (k - 1) last) ∧
      (∀ max run k, m.runLimit max = .ok run ∨ m.run max = .ok (some run) →
        run.result = .ok (.halted k) → ∃ last, m.HaltsAt (k - 1) last ∧
          run.machine.state.config =
            { last.state.config with
              reg := Function.update last.state.config.reg 7 (last.state.config.pc + 1)
              pc := last.state.config.pc + 1 }) ∧
      (∀ k es last, m.Proceeds k es last → last.pc ≠ 0xFFFF → bits last.fetch 12 4 = 0xF →
        ¬IsHalt last.fetch →
          ∃ run, run.result = .error (.unhandledTrap (vector last.fetch) last.pc) ∧
            ∀ max, k < max → m.runLimit max = .ok run ∧ m.run max = .ok (some run)) ∧
      (∀ max, (∀ e ∈ m.executions max, e.IsTrap →
          e.step.result = trapResult e.before.pc e.word) ∧
        ∀ e ∈ (m.executions max).dropLast, ¬e.IsTrap) ∧
      (∀ word, m.pc ≠ 0xFFFF → bits word 12 4 = 0xF →
        ∃ step, m.execute word = .ok step ∧ step.result = trapResult m.pc word) ∧
      ∀ fuel commands m', Command.performAll fuel commands m = .ok (some m') →
        m'.handler = .withHalt := by
  refine ⟨fun max => ?_, run_halts_iff hm, fun max run k hrun hr => ?_,
    fun k es last hp hpc hop hno => hp.unhandled hm hpc hop hno,
    fun max => ⟨fun e he ht => executions_trap hm he ht,
      fun e he => not_isTrap_of_mem_dropLast hm he⟩, fun word hpc hop => ?_,
    fun fuel commands m' h => Command.performAll_keeps Moves.withHalt h hm⟩
  · obtain ⟨run, h⟩ := runLimit_returns (reliable_withHalt hm) max
    exact ⟨run, h, runLimit_halts_iff hm h⟩
  · have hlimit : m.runLimit max = .ok run :=
      hrun.elim id fun hrun => (run_eq_some_iff.1 hrun).1
    obtain ⟨-, -, hlast⟩ := (runLimit_eq_ok_iff.1 hlimit).haltsAt hm hr
    exact hlast
  · obtain ⟨step, hs, hr, -⟩ := executes_trap_withHalt hm hpc hop
    exact ⟨step, hs.execute_eq, hr⟩

/-- The machine stores the word that halts it, and its second instruction is that word. A word with
other bits 11 to 8 halts it too, and another vector fails. -/
theorem standard_halts_overwriting :
    overwriting.handler = .withHalt ∧ overwriting.HaltsAt 1 overwritten ∧
      (∃ run, overwriting.runLimit 2 = .ok run ∧ run.result = .ok (.halted 2)) ∧
      (∃ fuel run, overwriting.run fuel = .ok (some run) ∧ run.result = .ok (.halted 2)) ∧
      (∃ step, overwriting.execute 0xFA25 = .ok step ∧ step.result = .ok .halted) ∧
      ∃ step, overwriting.execute 0xF030 = .ok step ∧
        step.result = .error (.unhandledTrap 0x30 0x3000) := by
  obtain ⟨es, hp⟩ := overwriting_proceeds
  have hfetch : overwritten.fetch = 0xF025 := Memory.read_write_self _ _ _
  have hlast : overwriting.HaltsAt 1 overwritten := by
    refine ⟨⟨es, hp⟩, by decide, ?_⟩
    rw [hfetch]
    decide
  obtain ⟨hlimit, hfree, -, -, -, hexecute, -⟩ := standard_halts overwriting rfl
  obtain ⟨run, hrun, hhalted⟩ := hlimit 2
  have hpc : overwriting.pc ≠ 0xFFFF := by decide
  exact ⟨rfl, hlast, ⟨run, hrun, (hhalted 2).2 ⟨by decide, by decide, _, hlast⟩⟩,
    (hfree 2).2 ⟨by decide, _, hlast⟩, hexecute 0xFA25 hpc rfl, hexecute 0xF030 hpc rfl⟩

end Machine
end Lc3
