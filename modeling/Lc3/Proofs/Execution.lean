import Lc3.Proofs.Decoding
import Lc3.Machine.Step

/-! # What executing a word can do

`Machine.execute` is a chain of checked operations. Here it is taken apart once, so that no later
proof has to open it again.

* `Instruction.service_effect`: a service is wanted by TRAP and by no other instruction.
* `State.fetched`, `State.entry`, `State.resumed`, `State.recovered`: the registers with PC behind
  the instruction, and the states before and after a service.
* `Machine.Executes`: the six ways in which the execution of a word can end, each with the whole
  step. There is no address behind the instruction, or no instruction in the word, or the
  instruction forms an address that does not exist, or it takes effect; the service of a TRAP
  completes, or it fails. `execute_eq_ok_iff` says that there is no other way.
* `execute_eq_error_iff`: the only misuse is that of a service.
-/

namespace Lc3
set_option autoImplicit false

theorem bind_eq_ok {ε α β : Type} {first : Except ε α} {rest : α → Except ε β} {result : β} :
    (first >>= rest) = .ok result ↔ ∃ a, first = .ok a ∧ rest a = .ok result := by
  cases first with
  | error e => simp [bind, Except.bind]
  | ok a => simp [bind, Except.bind]

theorem bind_returns {ε α β : Type} {first : Except ε α} {rest : α → Except ε β}
    (h : ∃ a, first = .ok a) (hrest : ∀ a, ∃ result, rest a = .ok result) :
    ∃ result, (first >>= rest) = .ok result := by
  obtain ⟨a, rfl⟩ := h
  exact hrest a

/-! ## Services -/

def Instruction.vector? : Instruction → Option Byte
  | .trap vector => some vector
  | _ => none

theorem Instruction.service_effect {i : Instruction} {regs : RegisterFile} {mem : Memory}
    {eff : Effect} (h : i.effect regs mem = .ok eff) : eff.service = i.vector? := by
  cases i with
  | trap vector =>
    cases h
    rfl
  | br n z p offset =>
    rw [effect] at h
    split at h
    · obtain ⟨target, -, h⟩ := bind_eq_ok.1 h
      cases h
      rfl
    · cases h
      rfl
  | add dr sr operand | and dr sr operand | jmp base | jsr offset | jsrr base =>
    obtain ⟨a, -, h⟩ := bind_eq_ok.1 h
    cases h
    rfl
  | not dr sr | ld dr offset | ldi dr offset | lea dr offset | st sr offset | sti sr offset =>
    obtain ⟨a, -, h⟩ := bind_eq_ok.1 h
    obtain ⟨b, -, h⟩ := bind_eq_ok.1 h
    cases h
    rfl
  | ldr dr base offset | str sr base offset =>
    obtain ⟨a, -, h⟩ := bind_eq_ok.1 h
    obtain ⟨b, -, h⟩ := bind_eq_ok.1 h
    obtain ⟨c, -, h⟩ := bind_eq_ok.1 h
    cases h
    rfl

theorem Instruction.eq_trap_of_vector? {i : Instruction} {vector : Byte}
    (h : i.vector? = some vector) : i = .trap vector := by
  cases i <;> cases h
  rfl

theorem Instruction.vector?_of_error {i : Instruction} {regs : RegisterFile} {mem : Memory}
    {f : Fault} (h : i.effect regs mem = .error f) : i.vector? = none := by
  cases hv : i.vector? with
  | none => rfl
  | some vector =>
    obtain rfl := Instruction.eq_trap_of_vector? hv
    cases h

theorem Instruction.vector?_ofBits (word : Word) {op : Opcode} (h : op ≠ .trap) :
    (ofBits word op).vector? = none := by
  cases op with
  | trap => exact absurd rfl h
  | jsr =>
    rw [ofBits]
    split <;> rfl
  | _ => rfl

/-! ## The states around an instruction -/

/-- The registers while the instruction at PC is executed. -/
def State.fetched (s : State) : RegisterFile :=
  { s.regs with pc := s.regs.pc + 1 }

/-- The state that the service of a TRAP at PC is entered with. -/
def State.entry (s : State) : State where
  regs := s.fetched.withLink (s.regs.pc + 1)
  mem := s.mem.openLog

/-- The state in which the machine goes on after a service that completed in this state. -/
def State.resumed (s : State) : State where
  regs := { s.regs with pc := s.regs.link }
  mem := s.mem.closeLog

/-- The state in which the machine is left by a service that failed in state `left`. -/
def State.recovered (s left : State) : State where
  regs := s.regs
  mem := left.mem.rollBack

namespace Machine

variable {σ : Type} [TrapHandler σ]

/-- The ways in which the execution of a word ends. -/
inductive Executes (m : Machine σ) (word : Word) : Step σ → Prop
  | lastAddress (hpc : m.pc = 0xFFFF) :
      Executes m word
        { result := .error (.addressOutOfRange 0x10000), machine := m,
          events := [.instructionFailed m.pc word (.addressOutOfRange 0x10000)] }
  | illegal (hpc : m.pc ≠ 0xFFFF) (hd : Instruction.decode word = .ok none) :
      Executes m word
        { result := .error (.illegalOpcode m.pc word), machine := m,
          events := [.instructionFailed m.pc word (.illegalOpcode m.pc word)] }
  | rejected {i : Instruction} {e : ExecutionError} (hpc : m.pc ≠ 0xFFFF)
      (hd : Instruction.decode word = .ok (some i))
      (he : i.effect m.state.fetched m.state.mem = .error (.execution e)) :
      Executes m word
        { result := .error e, machine := m,
          events := [.execute m.pc word i, .instructionFailed m.pc word e] }
  | performed {i : Instruction} {eff : Effect} (hpc : m.pc ≠ 0xFFFF)
      (hd : Instruction.decode word = .ok (some i)) (hv : i.vector? = none)
      (he : i.effect m.state.fetched m.state.mem = .ok eff) :
      Executes m word
        { result := .ok .proceed, machine := { m with state := m.state.commit eff },
          events := [.execute m.pc word i] }
  | served {vector : Byte} {served : Served σ} {verdict : Verdict} (hpc : m.pc ≠ 0xFFFF)
      (hd : Instruction.decode word = .ok (some (.trap vector)))
      (hs : TrapHandler.invoke vector m.handler m.state.entry = .ok served)
      (hr : served.reply = .ok verdict) :
      Executes m word
        { result := .ok verdict.outcome,
          machine := { state := served.state.resumed, handler := served.server },
          events := [.execute m.pc word (.trap vector),
            .invokeTrap vector (StandardTrap.ofVector? vector) m.pc] }
  | refused {vector : Byte} {served : Served σ} {e : ServiceError} (hpc : m.pc ≠ 0xFFFF)
      (hd : Instruction.decode word = .ok (some (.trap vector)))
      (hs : TrapHandler.invoke vector m.handler m.state.entry = .ok served)
      (hr : served.reply = .error e) :
      Executes m word
        { result := .error (e.toExecutionError vector m.pc),
          machine := { state := m.state.recovered served.state, handler := served.server },
          events := [.execute m.pc word (.trap vector),
            .invokeTrap vector (StandardTrap.ofVector? vector) m.pc,
            .instructionFailed m.pc word (e.toExecutionError vector m.pc)] }

/-- Whatever the error and whatever the service did, the registers are those before the
instruction, PC among them. -/
theorem Executes.regs_eq_of_error {m : Machine σ} {word : Word} {step : Step σ}
    {e : ExecutionError} (h : m.Executes word step) (he : step.result = .error e) :
    step.machine.state.regs = m.state.regs := by
  cases h with
  | lastAddress | illegal | rejected | refused => rfl
  | performed | served => cases he

/-! ## There is no other way -/

theorem effectiveAddress_next {a : Word} (h : a ≠ 0xFFFF) : effectiveAddress a 1 = .ok (a + 1) := by
  rw [effectiveAddress_eq_ok_iff]
  bv_omega

theorem effectiveAddress_last : effectiveAddress 0xFFFF 1 = .error (.addressOutOfRange 0x10000) :=
  rfl

variable {m : Machine σ} {word : Word}

theorem attempt_decoded {i : Instruction} (hpc : m.pc ≠ 0xFFFF)
    (hd : Instruction.decode word = .ok (some i)) :
    m.attempt word = (m.carryOut (m.pc + 1) i).map fun step =>
      { step with events := .execute m.pc word i :: step.events } := by
  unfold attempt
  rw [effectiveAddress_next hpc, hd]
  simp only [bind, Except.bind]
  cases m.carryOut (m.pc + 1) i <;> rfl

theorem carryOut_next (i : Instruction) :
    m.carryOut (m.pc + 1) i =
      match i.effect m.state.fetched m.state.mem with
      | .error (.misuse cause) => .error cause
      | .error (.execution e) => .ok { result := .error e, machine := m, events := [] }
      | .ok eff =>
        match eff.service with
        | some vector => m.serve vector eff.regs
        | none =>
          .ok { result := .ok .proceed, machine := { m with state := m.state.commit eff },
                events := [] } := rfl

theorem carryOut_trap (vector : Byte) :
    m.carryOut (m.pc + 1) (.trap vector) = m.serve vector m.state.entry.regs := rfl

/-- The step that ends with the call of the service of `vector`. -/
def conclude (m : Machine σ) (vector : Byte) (served : Served σ) : Step σ where
  result :=
    match served.reply with
    | .ok verdict => .ok verdict.outcome
    | .error e => .error (e.toExecutionError vector m.pc)
  machine :=
    { state :=
        match served.reply with
        | .ok _ => served.state.resumed
        | .error _ => m.state.recovered served.state
      handler := served.server }
  events := [.invokeTrap vector (StandardTrap.ofVector? vector) m.pc]

theorem serve_entry (vector : Byte) :
    m.serve vector m.state.entry.regs =
      (TrapHandler.invoke vector m.handler m.state.entry).map (m.conclude vector) := by
  have hentry : ({ regs := m.state.entry.regs, mem := m.state.mem.openLog } : State) =
      m.state.entry := rfl
  unfold serve
  rw [hentry]
  cases TrapHandler.invoke vector m.handler m.state.entry with
  | error cause => rfl
  | ok served =>
    obtain ⟨reply, server, left⟩ := served
    cases reply <;> rfl

theorem Executes.execute_eq {step : Step σ} (h : m.Executes word step) :
    m.execute word = .ok step := by
  unfold execute
  cases h with
  | lastAddress hpc =>
    unfold attempt
    rw [hpc, effectiveAddress_last]
    rfl
  | illegal hpc hd =>
    unfold attempt
    rw [effectiveAddress_next hpc, hd]
    rfl
  | rejected hpc hd he =>
    rw [attempt_decoded hpc hd, carryOut_next, he]
    rfl
  | performed hpc hd hv he =>
    rw [attempt_decoded hpc hd, carryOut_next, he]
    simp only [Instruction.service_effect he, hv]
    rfl
  | served hpc hd hs hr =>
    rw [attempt_decoded hpc hd, carryOut_trap, serve_entry, hs, Except.map, conclude, hr]
    rfl
  | refused hpc hd hs hr =>
    rw [attempt_decoded hpc hd, carryOut_trap, serve_entry, hs, Except.map, conclude, hr]
    rfl

/-- Where the execution of a word breaks a contract: in the register numbers of its instruction,
or in the service that it calls. -/
def Misuses (m : Machine σ) (word : Word) (cause : Misuse) : Prop :=
  m.pc ≠ 0xFFFF ∧ ∃ i, Instruction.decode word = .ok (some i) ∧
    (i.effect m.state.fetched m.state.mem = .error (.misuse cause) ∨
      ∃ vector, i = .trap vector ∧ TrapHandler.invoke vector m.handler m.state.entry = .error cause)

theorem execute_eq_error {cause : Misuse} (h : m.Misuses word cause) :
    m.execute word = .error cause := by
  obtain ⟨hpc, i, hd, he | ⟨vector, rfl, hs⟩⟩ := h
  · unfold execute
    rw [attempt_decoded hpc hd, carryOut_next, he]
    rfl
  · unfold execute
    rw [attempt_decoded hpc hd, carryOut_trap, serve_entry, hs]
    rfl

theorem executes_or_misuses (m : Machine σ) (word : Word) :
    (∃ step, m.Executes word step) ∨ ∃ cause, m.Misuses word cause := by
  by_cases hpc : m.pc = 0xFFFF
  · exact .inl ⟨_, .lastAddress hpc⟩
  have hd := Instruction.decode_eq_ok word
  cases hi : (Opcode.ofWord? word).map (Instruction.ofBits word) with
  | none =>
    rw [hi] at hd
    exact .inl ⟨_, .illegal hpc hd⟩
  | some i =>
    rw [hi] at hd
    cases he : i.effect m.state.fetched m.state.mem with
    | error fault =>
      cases fault with
      | misuse cause => exact .inr ⟨cause, hpc, i, hd, .inl he⟩
      | execution e => exact .inl ⟨_, .rejected hpc hd he⟩
    | ok eff =>
      cases hv : i.vector? with
      | none => exact .inl ⟨_, .performed hpc hd hv he⟩
      | some vector =>
        obtain rfl := Instruction.eq_trap_of_vector? hv
        cases hs : TrapHandler.invoke vector m.handler m.state.entry with
        | error cause => exact .inr ⟨cause, hpc, _, hd, .inr ⟨vector, rfl, hs⟩⟩
        | ok served =>
          cases hr : served.reply with
          | ok verdict => exact .inl ⟨_, .served hpc hd hs hr⟩
          | error e => exact .inl ⟨_, .refused hpc hd hs hr⟩

theorem execute_eq_ok_iff {step : Step σ} : m.execute word = .ok step ↔ m.Executes word step := by
  refine ⟨fun h => ?_, Executes.execute_eq⟩
  obtain ⟨step', h'⟩ | ⟨cause, h'⟩ := executes_or_misuses m word
  · rw [h'.execute_eq] at h
    cases h
    exact h'
  · rw [execute_eq_error h'] at h
    cases h

theorem execute_eq_error_iff {cause : Misuse} :
    m.execute word = .error cause ↔ m.Misuses word cause := by
  refine ⟨fun h => ?_, execute_eq_error⟩
  obtain ⟨step', h'⟩ | ⟨cause', h'⟩ := executes_or_misuses m word
  · rw [h'.execute_eq] at h
    cases h
  · rw [execute_eq_error h'] at h
    cases h
    exact h'

end Machine

end Lc3
