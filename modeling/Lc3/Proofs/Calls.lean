import Lc3.Proofs.Executions
import Lc3.Proofs.Refinement
import Lc3.Proofs.Registry
import Lc3.Proofs.Reliability
import Mathlib.Data.BitVec

/-! # What the trap handler hears of a session

A handler is called by TRAPs and by nothing else, once by each, and what it has become is never
taken back. So its state after a session is that after these calls, those that failed among them.

* `Execution.IsTrap`, `Execution.call`: the executions that call the handler, and how they do it.
* `Executes.handler_eq`, `Chain.invokeAll`: the handler after one execution and after a chain.
* `Command.invokeAll_performAll`: the handler after a session.
* `Records.invokeAll`, `TrapTable.count_invokeAll`: what calls make of a handler that writes them
  down, and of a routine that counts them.
* `handler_hears_every_trap`: the account of any session.
-/

namespace Lc3
set_option autoImplicit false
open Reference

/-! ## Calls -/

namespace Execution
variable {σ : Type}

/-- A TRAP was executed. At the last address not even a TRAP is looked at. -/
def IsTrap (e : Execution σ) : Prop :=
  e.before.pc ≠ 0xFFFF ∧ bits e.word 12 4 = 0xF

instance (e : Execution σ) : Decidable e.IsTrap :=
  inferInstanceAs (Decidable (_ ∧ _))

/-- The vector and the state that a TRAP calls the handler with. -/
def call (e : Execution σ) : Byte × State :=
  (vector e.word, e.before.state.entry)

def traps (es : List (Execution σ)) : List (Execution σ) :=
  es.filter (·.IsTrap)

theorem traps_cons_of_isTrap {e : Execution σ} (h : e.IsTrap) (es : List (Execution σ)) :
    traps (e :: es) = e :: traps es :=
  List.filter_cons_of_pos (by simpa using h)

theorem traps_cons_of_not {e : Execution σ} (h : ¬e.IsTrap) (es : List (Execution σ)) :
    traps (e :: es) = traps es :=
  List.filter_cons_of_neg (by simpa using h)

theorem traps_append (es es' : List (Execution σ)) : traps (es ++ es') = traps es ++ traps es' :=
  List.filter_append _ _

theorem link_entry (s : State) : s.entry.regs.link = s.regs.pc + 1 :=
  RegisterFile.link_withLink _ _

end Execution

namespace TrapHandler
variable {σ : Type} [TrapHandler σ]

theorem invokeAll_append (calls calls' : List (Byte × State)) (handler : σ) :
    invokeAll (calls ++ calls') handler = invokeAll calls handler >>= invokeAll calls' := by
  induction calls generalizing handler with
  | nil => rfl
  | cons call calls ih =>
    rw [List.cons_append, invokeAll, invokeAll]
    cases invoke call.1 handler call.2 with
    | error cause => rfl
    | ok served => exact ih served.server

end TrapHandler

namespace Machine
variable {σ : Type} [TrapHandler σ] {m m' : Machine σ} {word : Word} {step : Step σ}

/-- A TRAP calls the handler once and leaves it as the call did, whatever the reply. Nothing else
touches the handler. -/
theorem Executes.handler_eq (h : m.Executes word step) :
    (Execution.IsTrap { before := m, word, step } → ∃ served,
      TrapHandler.invoke (vector word) m.handler m.state.entry = .ok served ∧
        step.machine.handler = served.server) ∧
      (¬Execution.IsTrap { before := m, word, step } → step.machine.handler = m.handler) := by
  cases h with
  | lastAddress hpc => exact ⟨fun ht => absurd hpc ht.1, fun _ => rfl⟩
  | illegal hpc hd =>
    refine ⟨fun ht => ?_, fun _ => rfl⟩
    cases hd.symm.trans (decode_eq_trap word ht.2)
  | rejected hpc hd he =>
    refine ⟨fun ht => ?_, fun _ => rfl⟩
    cases hd.symm.trans (decode_eq_trap word ht.2)
    cases he
  | performed hpc hd hv he =>
    exact ⟨fun ht => absurd ht.2 (opcode_of_vector?_none word hd hv).2.2, fun _ => rfl⟩
  | served hpc hd hs hr | refused hpc hd hs hr =>
    obtain ⟨hop, rfl⟩ := (decode_eq_trap_iff word).1 hd
    exact ⟨fun _ => ⟨_, hs, rfl⟩, fun hn => absurd ⟨hpc, hop⟩ hn⟩

theorem Chain.invokeAll {es : List (Execution σ)} (h : m.Chain es m') :
    TrapHandler.invokeAll ((Execution.traps es).map Execution.call) m.handler =
      .ok m'.handler := by
  induction h with
  | nil m => rfl
  | @cons m m' word step es hs _ ih =>
    obtain ⟨htrap, hother⟩ := hs.handler_eq
    by_cases ht : Execution.IsTrap { before := m, word, step }
    · obtain ⟨served, hserved, hserver⟩ := htrap ht
      rw [hserver] at ih
      rw [Execution.traps_cons_of_isTrap ht]
      exact bind_eq_ok.2 ⟨served, hserved, ih⟩
    · rw [hother ht] at ih
      rw [Execution.traps_cons_of_not ht]
      exact ih

omit [TrapHandler σ] in
theorem Sets.handler_eq {command : Command} (h : m.Sets command m') : m'.handler = m.handler := by
  cases h <;> rfl

end Machine

namespace Command
variable {σ : Type} [TrapHandler σ] {m m' : Machine σ} {fuel : Nat}

theorem invokeAll_perform {command : Command} {performed : Performed σ}
    (h : command.perform fuel m = .ok (some performed)) :
    TrapHandler.invokeAll ((Execution.traps (command.executions fuel m)).map Execution.call)
      m.handler = .ok performed.machine.handler := by
  obtain ⟨-, hchain⟩ | ⟨hsets, hnone⟩ := perform_cases h
  · exact hchain.invokeAll
  · rw [hnone, hsets.handler_eq]
    rfl

theorem invokeAll_performAll {commands : List Command}
    (h : performAll fuel commands m = .ok (some m')) :
    TrapHandler.invokeAll ((Execution.traps (executionsAll fuel commands m)).map Execution.call)
      m.handler = .ok m'.handler := by
  induction commands generalizing m with
  | nil =>
    cases h
    rfl
  | cons command commands ih =>
    obtain ⟨performed, hp, hrest, hall⟩ := performAll_cons h
    rw [hall, Execution.traps_append, List.map_append, TrapHandler.invokeAll_append]
    exact bind_eq_ok.2 ⟨_, invokeAll_perform hp, ih hrest⟩

end Command

/-! ## Handlers that write down their calls -/

section Recording
variable {σ : Type} [TrapHandler σ] {record : σ → List (Byte × Word)}

/-- Each call adds its vector and its return address to the record, also a call that fails. -/
def TrapHandler.Records (record : σ → List (Byte × Word)) : Prop :=
  ∀ v handler s served, invoke v handler s = .ok served →
    record served.server = record handler ++ [(v, s.regs.link)]

theorem TrapHandler.Records.invokeAll (hrecord : Records record) {calls : List (Byte × State)}
    {handler handler' : σ} (h : invokeAll calls handler = .ok handler') :
    record handler' = record handler ++ calls.map fun call => (call.1, call.2.regs.link) := by
  induction calls generalizing handler with
  | nil =>
    cases h
    rw [List.map_nil, List.append_nil]
  | cons call calls ih =>
    obtain ⟨served, hs, hrest⟩ := bind_eq_ok.1 h
    rw [ih hrest, hrecord _ _ _ _ hs, List.append_assoc]
    rfl

theorem Recorder.records : TrapHandler.Records fun r : Recorder => r.calls.toList := by
  intro v recorder s served hs
  cases hs
  exact Array.toList_push

end Recording

/-! ## Routines that count their calls -/

section Counting
variable {ρ α : Type} [ServiceRoutine ρ] [AddCommMonoidWithOne α]

/-- Each call of a routine raises its count by one, also a call that fails. -/
def ServiceRoutine.Counts (count : ρ → α) : Prop :=
  ∀ routine s served, call routine s = .ok served → count served.server = count routine + 1

variable {count : ρ → α} {table table' : TrapTable ρ} {v : Byte} {routine : ρ}

theorem TrapTable.count_invoke (hcount : ServiceRoutine.Counts count) {call : Byte × State}
    {served : Served (TrapTable ρ)} (hs : TrapHandler.invoke call.1 table call.2 = .ok served)
    (hget : table.get? v = some (.routine routine)) :
    ∃ routine', served.server.get? v = some (.routine routine') ∧
      count routine' = if call.1 = v then count routine + 1 else count routine := by
  obtain ⟨hnone, rfl⟩ | ⟨service, called, hservice, hcall, rfl⟩ := invoke_cases hs
  · have hne : call.1 ≠ v := by
      rintro rfl
      cases hnone.symm.trans hget
    exact ⟨routine, hget, (if_neg hne).symm⟩
  · rw [get?_set]
    by_cases hv : call.1 = v
    · subst hv
      cases hservice.symm.trans hget
      obtain ⟨served, hserved, hcall⟩ := bind_eq_ok.1 hcall
      cases hcall
      refine ⟨served.server, if_pos rfl, ?_⟩
      rw [if_pos rfl]
      exact hcount _ _ _ hserved
    · refine ⟨routine, ?_, (if_neg hv).symm⟩
      rw [if_neg (Ne.symm hv)]
      exact hget

theorem TrapTable.count_invokeAll (hcount : ServiceRoutine.Counts count)
    {calls : List (Byte × State)} (h : TrapHandler.invokeAll calls table = .ok table')
    (hget : table.get? v = some (.routine routine)) :
    ∃ routine', table'.get? v = some (.routine routine') ∧
      count routine' = count routine + (calls.countP fun call => call.1 = v : ℕ) := by
  induction calls generalizing table routine with
  | nil =>
    cases h
    exact ⟨routine, hget, by simp⟩
  | cons call calls ih =>
    obtain ⟨served, hs, hrest⟩ := bind_eq_ok.1 h
    obtain ⟨routine₁, hget₁, hcount₁⟩ := count_invoke hcount hs hget
    obtain ⟨routine', hget', hcount'⟩ := ih hrest hget₁
    refine ⟨routine', hget', ?_⟩
    rw [hcount', hcount₁]
    by_cases hv : call.1 = v
    · rw [if_pos hv, List.countP_cons_of_pos (by simpa using hv), Nat.cast_succ, add_assoc,
        add_comm 1]
    · rw [if_neg hv, List.countP_cons_of_neg (by simpa using hv)]

theorem ScriptedRoutine.counts : ServiceRoutine.Counts ScriptedRoutine.calls := by
  intro routine s served hs
  obtain ⟨end', -, hs⟩ := bind_eq_ok.1 hs
  cases hs
  rfl

end Counting

/-! ## Sessions -/

section Sessions
open Execution Command

theorem record_performAll {σ : Type} [TrapHandler σ] {record : σ → List (Byte × Word)}
    {m m' : Machine σ} {fuel : Nat} {commands : List Command}
    (hrecord : TrapHandler.Records record) (h : performAll fuel commands m = .ok (some m')) :
    record m'.handler = record m.handler ++
      (traps (executionsAll fuel commands m)).map fun e => (vector e.word, e.before.pc + 1) := by
  rw [hrecord.invokeAll (invokeAll_performAll h), List.map_map]
  congr 1
  exact List.map_congr_left fun e _ => Prod.ext rfl (link_entry _)

theorem count_performAll {ρ α : Type} [ServiceRoutine ρ] [AddCommMonoidWithOne α] {count : ρ → α}
    {m m' : Machine (TrapTable ρ)} {fuel : Nat} {commands : List Command} {v : Byte} {routine : ρ}
    (hcount : ServiceRoutine.Counts count) (hget : m.handler.get? v = some (.routine routine))
    (h : performAll fuel commands m = .ok (some m')) :
    ∃ routine', m'.handler.get? v = some (.routine routine') ∧
      count routine' = count routine +
        ((traps (executionsAll fuel commands m)).countP fun e => vector e.word = v : ℕ) := by
  have hcalls := TrapTable.count_invokeAll hcount (invokeAll_performAll h) hget
  rw [List.countP_map] at hcalls
  exact hcalls

/-- Executing a word calls the handler once if it is a TRAP that is looked at, and not at all
otherwise. After a session the handler is what its calls made of it, one for each TRAP that was
executed, in order and with R7 the address behind the TRAP. So the record of a handler that writes
down its calls has grown by these, and a routine that counts its calls, exactly or modulo `2 ^ 16`,
has counted the TRAPs with its vector. Calls that failed are among them. -/
theorem handler_hears_every_trap (fuel : Nat) (commands : List Command) :
    (∀ (σ : Type) [TrapHandler σ] (m : Machine σ) (word : Word) (step : Step σ),
      m.execute word = .ok step →
        (m.pc ≠ 0xFFFF ∧ bits word 12 4 = 0xF → ∃ served,
          TrapHandler.invoke (vector word) m.handler m.state.entry = .ok served ∧
            m.state.entry.regs.link = m.pc + 1 ∧ step.machine.handler = served.server) ∧
        (¬(m.pc ≠ 0xFFFF ∧ bits word 12 4 = 0xF) → step.machine.handler = m.handler)) ∧
    (∀ (σ : Type) [TrapHandler σ] (m m' : Machine σ),
      performAll fuel commands m = .ok (some m') →
        TrapHandler.invokeAll ((traps (executionsAll fuel commands m)).map call) m.handler =
          .ok m'.handler) ∧
    (∀ (σ : Type) [TrapHandler σ] (record : σ → List (Byte × Word)) (m m' : Machine σ),
      TrapHandler.Records record → performAll fuel commands m = .ok (some m') →
        record m'.handler = record m.handler ++
          (traps (executionsAll fuel commands m)).map fun e => (vector e.word, e.before.pc + 1)) ∧
    (∀ (ρ : Type) [ServiceRoutine ρ] (count : ρ → ℕ) (m m' : Machine (TrapTable ρ)) (v : Byte)
        (routine : ρ),
      ServiceRoutine.Counts count → m.handler.get? v = some (.routine routine) →
        performAll fuel commands m = .ok (some m') →
          ∃ routine', m'.handler.get? v = some (.routine routine') ∧
            count routine' = count routine +
              (traps (executionsAll fuel commands m)).countP fun e => vector e.word = v) ∧
    ∀ (ρ : Type) [ServiceRoutine ρ] (count : ρ → Word) (m m' : Machine (TrapTable ρ)) (v : Byte)
        (routine : ρ),
      ServiceRoutine.Counts count → m.handler.get? v = some (.routine routine) →
        performAll fuel commands m = .ok (some m') →
          ∃ routine', m'.handler.get? v = some (.routine routine') ∧
            (count routine').toNat = ((count routine).toNat +
              (traps (executionsAll fuel commands m)).countP fun e => vector e.word = v) % 2 ^ 16 := by
  refine ⟨fun σ _ m word step hs => ?_, fun σ _ m m' h => invokeAll_performAll h,
    fun σ _ record m m' hrecord h => record_performAll hrecord h,
    fun ρ _ count m m' v routine hcount hget h => count_performAll hcount hget h,
    fun ρ _ count m m' v routine hcount hget h => ?_⟩
  · obtain ⟨htrap, hother⟩ := (Machine.execute_eq_ok_iff.1 hs).handler_eq
    refine ⟨fun ht => ?_, hother⟩
    obtain ⟨served, hserved, hserver⟩ := htrap ht
    exact ⟨served, hserved, link_entry _, hserver⟩
  · obtain ⟨routine', hget', hcount'⟩ := count_performAll hcount hget h
    refine ⟨routine', hget', ?_⟩
    rw [hcount', BitVec.toNat_add, BitVec.natCast_eq_ofNat, BitVec.toNat_ofNat, Nat.add_mod_mod]

/-- Two TRAPs with an ADD between them, and a reset in the end. -/
def ringing : List Command :=
  [.execute 0xF030, .execute 0x127F, .execute 0xF030, .reset]

def refusing : Machine Recorder :=
  .withHandler { reply := .error .failed }

def tallied : Machine (TrapTable ScriptedRoutine) :=
  .withHandler (TrapTable.empty.register 0x30 (.routine TrapTable.tally))

theorem refusing_performs : ∃ m', performAll 0 ringing refusing = .ok (some m') ∧
    (traps (executionsAll 0 ringing refusing)).map
      (fun e => (vector e.word, e.before.pc + 1)) = [(0x30, 1), (0x30, 2)] :=
  ⟨_, rfl, rfl⟩

theorem tallied_performs : ∃ m', performAll 0 ringing tallied = .ok (some m') ∧
    (traps (executionsAll 0 ringing tallied)).countP (fun e => vector e.word = 0x30) = 2 :=
  ⟨_, rfl, rfl⟩

/-- Both TRAPs fail and both are heard. -/
theorem handler_hears_every_trap_ringing :
    (∃ m', performAll 0 ringing refusing = .ok (some m') ∧
      m'.handler.calls.toList = [(0x30, 1), (0x30, 2)]) ∧
    ∃ m' routine', performAll 0 ringing tallied = .ok (some m') ∧
      m'.handler.get? 0x30 = some (.routine routine') ∧ routine'.calls.toNat = 2 := by
  obtain ⟨-, -, hrecorded, -, hcounted⟩ := handler_hears_every_trap 0 ringing
  constructor
  · obtain ⟨m', h, htraps⟩ := refusing_performs
    have hcalls := hrecorded Recorder _ refusing m' Recorder.records h
    rw [htraps] at hcalls
    exact ⟨m', h, hcalls⟩
  · obtain ⟨m', h, htraps⟩ := tallied_performs
    have hget : tallied.handler.get? 0x30 = some (.routine TrapTable.tally) :=
      TrapTable.get?_register _ _ _
    obtain ⟨routine', hget', hcalls⟩ :=
      hcounted ScriptedRoutine _ tallied m' 0x30 _ ScriptedRoutine.counts hget h
    rw [htraps] at hcalls
    exact ⟨m', routine', h, hget', hcalls⟩

end Sessions
end Lc3
