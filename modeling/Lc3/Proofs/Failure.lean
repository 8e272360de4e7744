import Lc3.Proofs.Refinement

/-! # When executing a word fails

* `Machine.failure?`: the error of the execution of a word, found by the checks in their order: an
  address behind the instruction, an instruction in the word, the address that the instruction
  forms, the reply of the service.
* `execute_decided`: the execution of a word returns with this error or without one, unless the
  service breaks a contract.
* `execute_fails_iff`: the exact conditions, and the instructions that never fail.
-/

namespace Lc3
set_option autoImplicit false
open Reference

def Step.error? {σ : Type} (step : Step σ) : Option ExecutionError :=
  match step.result with
  | .ok _ => none
  | .error e => some e

theorem Step.error?_eq_some_iff {σ : Type} {step : Step σ} {e : ExecutionError} :
    step.error? = some e ↔ step.result = .error e := by
  unfold error?
  cases step.result <;> simp

/-- ADD, AND, NOT, JMP, JSRR, a BR that is not taken, and LDI or STI whose pointer cell exists,
whatever address that cell holds. -/
def Reference.NeverFails (w : Word) (c : Config) : Prop :=
  bits w 12 4 = 0x1 ∨ bits w 12 4 = 0x5 ∨ bits w 12 4 = 0x9 ∨ bits w 12 4 = 0xC ∨
    (bits w 12 4 = 0x4 ∧ bits w 11 1 = 0) ∨
    (bits w 12 4 = 0x0 ∧ selects w c = false) ∨
    ((bits w 12 4 = 0xA ∨ bits w 12 4 = 0xB) ∧ InSpace (pcRelative w 9 c))

theorem Reference.NeverFails.inSpace {w : Word} {c : Config} (h : NeverFails w c) :
    (bits w 12 4 ≠ 0x8 ∧ bits w 12 4 ≠ 0xD ∧ bits w 12 4 ≠ 0xF) ∧ ∀ x ∈ target w c, InSpace x := by
  rcases h with h | h | h | h | ⟨h, hb⟩ | ⟨h, hb⟩ | ⟨h | h, hb⟩
  all_goals
    refine ⟨by omega, fun x hx => ?_⟩
    simp only [target, h, reduceCtorEq, Option.mem_def, Option.some.injEq] at hx
  · rw [if_neg (by omega)] at hx
    cases hx
  · rw [if_neg (by rw [hb]; decide)] at hx
    cases hx
  · exact hx ▸ hb
  · exact hx ▸ hb

namespace Machine
variable {σ : Type} [TrapHandler σ] {m : Machine σ} {word : Word}

/-- The error with which the service of a TRAP ends the instruction. -/
def serviceFailure? (m : Machine σ) (vector : Byte) : Option ExecutionError :=
  match TrapHandler.invoke vector m.handler m.state.entry with
  | .ok { reply := .error .unregistered, .. } => some (.unhandledTrap vector m.pc)
  | .ok { reply := .error .failed, .. } => some (.trapRoutineFailed vector)
  | _ => none

/-- The error with which the execution of a word fails; an earlier check wins over a later one. -/
def failure? (m : Machine σ) (word : Word) : Option ExecutionError :=
  if m.pc = 0xFFFF then some (.addressOutOfRange 65536)
  else if bits word 12 4 = 0x8 ∨ bits word 12 4 = 0xD then some (.illegalOpcode m.pc word)
  else
    match target word m.state.config with
    | some x => if InSpace x then none else some (.addressOutOfRange x)
    | none => if bits word 12 4 = 0xF then m.serviceFailure? (vector word) else none

theorem failure?_plain (hpc : m.pc ≠ 0xFFFF)
    (hop : bits word 12 4 ≠ 0x8 ∧ bits word 12 4 ≠ 0xD ∧ bits word 12 4 ≠ 0xF) :
    m.failure? word =
      (target word m.state.config).bind fun x =>
        if InSpace x then none else some (.addressOutOfRange x) := by
  unfold failure?
  rw [if_neg hpc, if_neg (not_or.2 ⟨hop.1, hop.2.1⟩)]
  cases target word m.state.config with
  | none => exact if_neg hop.2.2
  | some x => rfl

theorem failure?_trap (hpc : m.pc ≠ 0xFFFF) (hop : bits word 12 4 = 0xF) :
    m.failure? word = m.serviceFailure? (vector word) := by
  have ht : target word m.state.config = none := by simp only [target, hop]
  unfold failure?
  rw [if_neg hpc, if_neg (by omega), ht]
  exact if_pos hop

/-- The execution of a word returns, with the error that the checks find or without one, unless the
service of a TRAP breaks a contract. -/
theorem execute_decided (m : Machine σ) (word : Word) :
    (∃ step, m.Executes word step ∧ step.error? = m.failure? word) ∨
      ∃ cause, m.execute word = .error cause ∧ m.failure? word = none ∧ m.pc ≠ 0xFFFF ∧
        bits word 12 4 = 0xF ∧
        TrapHandler.invoke (vector word) m.handler m.state.entry = .error cause := by
  by_cases hpc : m.pc = 0xFFFF
  · refine .inl ⟨_, .lastAddress hpc, ?_⟩
    rw [failure?, if_pos hpc]
    rfl
  by_cases hill : bits word 12 4 = 0x8 ∨ bits word 12 4 = 0xD
  · refine .inl ⟨_, .illegal hpc (decode_eq_none word hill), ?_⟩
    rw [failure?, if_neg hpc, if_pos hill]
    rfl
  by_cases htrap : bits word 12 4 = 0xF
  · have hd := decode_eq_trap word htrap
    have hf : m.failure? word = m.serviceFailure? (vector word) := failure?_trap hpc htrap
    unfold serviceFailure? at hf
    cases hs : TrapHandler.invoke (vector word) m.handler m.state.entry with
    | error cause =>
      refine .inr ⟨cause, execute_eq_error ⟨hpc, _, hd, .inr ⟨_, rfl, hs⟩⟩, ?_, hpc, htrap, rfl⟩
      rw [hf, hs]
    | ok served =>
      rw [hs] at hf
      obtain ⟨reply, server, left⟩ := served
      cases reply with
      | ok verdict => exact .inl ⟨_, .served hpc hd hs rfl, hf.symm⟩
      | error e =>
        refine .inl ⟨_, .refused hpc hd hs rfl, ?_⟩
        rw [hf]
        cases e <;> rfl
  · rw [not_or] at hill
    have hop := And.intro hill.1 (And.intro hill.2 htrap)
    obtain ⟨step, hs, -, ⟨hin, hr, -⟩ | ⟨x, hx, hn, hr, -⟩⟩ := executes_plain hpc hop
    · refine .inl ⟨step, hs, ?_⟩
      rw [failure?_plain hpc hop, Step.error?, hr]
      cases ht : target word m.state.config with
      | none => rfl
      | some x => exact (if_pos (hin x ht)).symm
    · refine .inl ⟨step, hs, ?_⟩
      rw [failure?_plain hpc hop, Step.error?, hr, Option.mem_def.1 hx]
      exact (if_neg hn).symm

theorem exists_error_iff (m : Machine σ) (word : Word) (e : ExecutionError) :
    (∃ step, m.execute word = .ok step ∧ step.result = .error e) ↔ m.failure? word = some e := by
  obtain ⟨step, hs, hf⟩ | ⟨cause, hc, hf, -⟩ := execute_decided m word
  · rw [hs.execute_eq, ← hf, Step.error?_eq_some_iff]
    constructor
    · rintro ⟨step', h, hr⟩
      cases h
      exact hr
    · exact fun hr => ⟨step, rfl, hr⟩
  · rw [hc, hf]
    constructor
    · rintro ⟨step, h, -⟩
      cases h
    · intro h
      cases h

theorem execute_misuse_iff (m : Machine σ) (word : Word) (cause : Misuse) :
    m.execute word = .error cause ↔ m.pc ≠ 0xFFFF ∧ bits word 12 4 = 0xF ∧
      TrapHandler.invoke (vector word) m.handler m.state.entry = .error cause := by
  constructor
  · intro h
    obtain ⟨step, hs, -⟩ | ⟨cause', hc, -, hpc, hop, hi⟩ := execute_decided m word
    · rw [hs.execute_eq] at h
      cases h
    · rw [hc] at h
      cases h
      exact ⟨hpc, hop, hi⟩
  · rintro ⟨hpc, hop, hi⟩
    exact execute_eq_error ⟨hpc, _, decode_eq_trap word hop, .inr ⟨_, rfl, hi⟩⟩

/-- The execution of a word fails exactly with the error of `failure?`, and it returns unless the
service of a TRAP breaks a contract. At the last address nothing is looked at, neither the word nor
the handler. -/
theorem execute_fails_iff (m : Machine σ) (word : Word) :
    (∀ e, (∃ step, m.execute word = .ok step ∧ step.result = .error e) ↔
        m.failure? word = some e) ∧
      (∀ cause, m.execute word = .error cause ↔ m.pc ≠ 0xFFFF ∧ bits word 12 4 = 0xF ∧
        TrapHandler.invoke (vector word) m.handler m.state.entry = .error cause) ∧
      (m.pc = 0xFFFF → m.execute word = .ok
        { result := .error (.addressOutOfRange 65536), machine := m,
          events := [.instructionFailed m.pc word (.addressOutOfRange 65536)] }) ∧
      (m.pc ≠ 0xFFFF → NeverFails word m.state.config →
        ∃ step, m.execute word = .ok step ∧ step.result = .ok .proceed) := by
  refine ⟨exists_error_iff m word, execute_misuse_iff m word,
    fun hpc => (Executes.lastAddress hpc).execute_eq, fun hpc hw => ?_⟩
  obtain ⟨hop, hin⟩ := hw.inSpace
  obtain ⟨step, hs, -, ⟨-, hr, -⟩ | ⟨x, hx, hn, -⟩⟩ := executes_plain hpc hop
  · exact ⟨step, hs.execute_eq, hr⟩
  · exact absurd (hin x hx) hn

/-- PC is at the last address but one, and R0 holds 0. -/
def nearEnd : Machine Recorder :=
  (withHandler {}).setPc 0xFFFE

/-- BR with a target beyond the last address proceeds as long as it is not taken, and LDR below R0
fails with the negative address. -/
theorem execute_fails_iff_nearEnd :
    nearEnd.pc ≠ 0xFFFF ∧ NeverFails 0x08FF nearEnd.state.config ∧
      (∃ step, nearEnd.execute 0x08FF = .ok step ∧ step.result = .ok .proceed) ∧
      ∃ step, nearEnd.execute 0x603F = .ok step ∧
        step.result = .error (.addressOutOfRange (-1)) := by
  have hpc : nearEnd.pc ≠ 0xFFFF := by decide
  have hbr : NeverFails 0x08FF nearEnd.state.config := by
    right; right; right; right; right; left
    exact ⟨rfl, rfl⟩
  have hldr : nearEnd.failure? 0x603F = some (.addressOutOfRange (-1)) := rfl
  obtain ⟨-, -, -, hproceeds⟩ := execute_fails_iff nearEnd 0x08FF
  obtain ⟨herror, -⟩ := execute_fails_iff nearEnd 0x603F
  exact ⟨hpc, hbr, hproceeds hpc hbr, (herror _).2 hldr⟩

end Machine

end Lc3
