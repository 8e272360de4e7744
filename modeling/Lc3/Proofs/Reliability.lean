import Lc3.Proofs.Editing

/-! # Services that keep the contracts

A service may itself call operations outside of their contracts, and the machine cannot prevent it.
A handler is reliable if no series of calls makes one of its services do so; its state changes from
call to call, so one call that returns does not show it.

* `TrapHandler.Reliable`: no series of calls breaks a contract.
* `Reliable.of_invariant`: it is enough to know a property that calls keep.
* `TrapTable.reliable`: a table is reliable if its routines are.
* `ScriptedRoutine.returns`: a script that only names registers that exist always returns.
-/

namespace Lc3
set_option autoImplicit false

/-! ## Series of calls -/

namespace TrapHandler
variable {σ : Type} [TrapHandler σ] {handler : σ}

/-- Calls one after another, each with a vector and the state that it is called in. -/
def invokeAll : List (Byte × State) → σ → Except Misuse σ
  | [], handler => .ok handler
  | (vector, s) :: calls, handler => do
    let served ← invoke vector handler s
    invokeAll calls served.server

/-- No series of calls breaks a contract. -/
def Reliable (handler : σ) : Prop :=
  ∀ calls, ∃ handler', invokeAll calls handler = .ok handler'

theorem Reliable.returns (h : Reliable handler) (vector : Byte) (s : State) :
    ∃ served, invoke vector handler s = .ok served := by
  obtain ⟨handler', hcalls⟩ := h [(vector, s)]
  obtain ⟨served, hs, -⟩ := bind_eq_ok.1 hcalls
  exact ⟨served, hs⟩

theorem Reliable.server (h : Reliable handler) {vector : Byte} {s : State} {served : Served σ}
    (hs : invoke vector handler s = .ok served) : Reliable served.server := by
  intro calls
  obtain ⟨handler', hcalls⟩ := h ((vector, s) :: calls)
  obtain ⟨served', hs', hrest⟩ := bind_eq_ok.1 hcalls
  rw [hs] at hs'
  cases hs'
  exact ⟨handler', hrest⟩

/-- A handler is reliable if it has a property with which calls return, and which they keep. -/
theorem Reliable.of_invariant {P : σ → Prop}
    (hP : ∀ h, P h → ∀ vector s, ∃ served, invoke vector h s = .ok served ∧ P served.server)
    (h : P handler) : Reliable handler := by
  intro calls
  induction calls generalizing handler with
  | nil => exact ⟨handler, rfl⟩
  | cons call calls ih =>
    obtain ⟨served, hs, hserver⟩ := hP handler h call.1 call.2
    obtain ⟨handler', hrest⟩ := ih hserver
    exact ⟨handler', bind_eq_ok.2 ⟨served, hs, hrest⟩⟩

end TrapHandler

/-! ## Tables -/

namespace TrapTable
variable {ρ : Type} {table : TrapTable ρ} {P : ρ → Prop}

/-- All routines of the table have the property. -/
def Holds (table : TrapTable ρ) (P : ρ → Prop) : Prop :=
  ∀ vector routine, table.get? vector = some (.routine routine) → P routine

theorem Holds.empty : (empty : TrapTable ρ).Holds P := by
  intro vector routine hget
  rw [get?_empty] at hget
  cases hget

theorem Holds.set (h : table.Holds P) (vector : Byte) {service : Option (Service ρ)}
    (hs : ∀ routine, service = some (.routine routine) → P routine) :
    (table.set vector service).Holds P := by
  intro v routine hget
  rw [get?_set] at hget
  split at hget
  · exact hs routine hget
  · exact h v routine hget

theorem Holds.register_routine (h : table.Holds P) (vector : Byte) {routine : ρ} (hr : P routine) :
    (table.register vector (.routine routine)).Holds P := by
  refine h.set vector fun routine' he => ?_
  cases he
  exact hr

/-- What a call leaves in the table is what its routine has become, so the property only has to be
kept by the routines one by one. -/
theorem reliable [ServiceRoutine ρ]
    (hP : ∀ routine, P routine → ∀ s, ∃ served,
      ServiceRoutine.call routine s = .ok served ∧ P served.server)
    (h : table.Holds P) : TrapHandler.Reliable table := by
  refine TrapHandler.Reliable.of_invariant (P := (Holds · P)) (fun t ht vector s => ?_) h
  cases hget : t.get? vector with
  | none => exact ⟨_, invoke_unregistered hget, ht⟩
  | some service =>
    rw [invoke_registered hget]
    cases service with
    | halt =>
      refine ⟨_, rfl, ht.set vector fun routine he => ?_⟩
      cases he
    | routine routine =>
      obtain ⟨served, hserved, hserver⟩ := hP routine (ht vector routine hget) s
      rw [Service.call, hserved]
      exact ⟨_, rfl, ht.register_routine vector hserver⟩

end TrapTable

/-! ## Scripts -/

/-- The register numbers that an action reads or writes by. -/
def Action.registers : Action → List Byte
  | set r _ | getPc r | count r | failIfZero r | haltIfNegative r => [r]
  | move r r' | add r r' _ | loadWord r r' | storeWord r r' => [r, r']
  | setPc _ | poke .. | load .. | resetMemory | newMemory | newRegisters | failFromCall _ => []

namespace Action
variable {call : Word} {reply : Reply}

theorem perform_returns {action : Action} (h : ∀ r ∈ action.registers, r.toNat ≤ 7) (s : State) :
    ∃ progress, action.perform call s = .ok progress := by
  have hread : ∀ r ∈ action.registers, ∃ w, s.regs.read r = .ok w :=
    fun r hr => ⟨_, RegisterFile.read_eq_ok (Nat.lt_succ_of_le (h r hr))⟩
  have hwrite : ∀ r ∈ action.registers, ∀ w, ∃ regs, s.regs.write r w = .ok regs :=
    fun r hr w => ⟨_, RegisterFile.write_eq_ok w (Nat.lt_succ_of_le (h r hr))⟩
  cases action with
  | setPc word | poke address word | resetMemory | newMemory | newRegisters => exact ⟨_, rfl⟩
  | set r word | getPc r | count r =>
    exact bind_returns (hwrite r (by simp [registers]) _) fun _ => ⟨_, rfl⟩
  | move target source | loadWord target source =>
    refine bind_returns (hread source (by simp [registers])) fun w => ?_
    exact bind_returns (hwrite target (by simp [registers]) _) fun _ => ⟨_, rfl⟩
  | storeWord address source =>
    refine bind_returns (hread address (by simp [registers])) fun a => ?_
    exact bind_returns (hread source (by simp [registers])) fun _ => ⟨_, rfl⟩
  | add dr sr value =>
    have hresult : ∀ w, ∃ regs, s.regs.writeResult dr w = .ok regs :=
      fun w => bind_returns (hwrite dr (by simp [registers]) w) fun _ => ⟨_, rfl⟩
    have hcombine : ∃ regs, s.regs.combine (· + ·) dr sr (.immediate value) = .ok regs :=
      bind_returns (hread sr (by simp [registers])) fun w => hresult _
    exact bind_returns hcombine fun _ => ⟨_, rfl⟩
  | load address words =>
    rw [perform]
    cases s.mem.load address words with
    | ok mem => exact ⟨_, rfl⟩
    | error e => exact ⟨_, rfl⟩
  | failFromCall n =>
    rw [perform]
    split
    all_goals exact ⟨_, rfl⟩
  | failIfZero r | haltIfNegative r =>
    refine bind_returns (hread r (by simp [registers])) fun w => ?_
    split
    all_goals exact ⟨_, rfl⟩

theorem performAll_returns {actions : List Action}
    (h : ∀ action ∈ actions, ∀ r ∈ action.registers, r.toNat ≤ 7) (s : State) :
    ∃ left, performAll call reply actions s = .ok left := by
  induction actions generalizing s with
  | nil => exact ⟨_, rfl⟩
  | cons action actions ih =>
    rw [List.forall_mem_cons] at h
    obtain ⟨progress, hp⟩ := perform_returns h.1 s
    cases progress with
    | next s' =>
      obtain ⟨left, hleft⟩ := ih h.2 s'
      exact ⟨left, bind_eq_ok.2 ⟨_, hp, hleft⟩⟩
    | done reply' s' => exact ⟨_, bind_eq_ok.2 ⟨_, hp, rfl⟩⟩

end Action

/-- All registers that the script names exist. -/
def ScriptedRoutine.Legal (routine : ScriptedRoutine) : Prop :=
  ∀ action ∈ routine.actions, ∀ r ∈ action.registers, r.toNat ≤ 7

theorem ScriptedRoutine.returns {routine : ScriptedRoutine} (h : routine.Legal) (s : State) :
    ∃ served, ServiceRoutine.call routine s = .ok served ∧ served.server.Legal := by
  have hleft : ∃ left, Action.performAll (routine.calls + 1) routine.reply routine.actions s =
      .ok left := Action.performAll_returns h s
  obtain ⟨left, hleft⟩ := hleft
  exact ⟨_, bind_eq_ok.2 ⟨left, hleft, rfl⟩, h⟩

end Lc3
