import Lc3.Proofs.Atomicity
import Lc3.Proofs.Refinement
import Lc3.Proofs.Sessions

/-! # Services that replace the memory

The undo log is part of the memory that a service is given. A service that puts a new memory in the
place of this one has put the log away with it, and the new memory has none: a failure finds
nothing to undo. A copy that the service has kept from an earlier call brings the log of that call
along instead.

* `Memory.Change`, `Memory.changeAll`: edits and replacements, one after another.
* `exists_last_replace`: whatever was done before the last replacement is lost with it.
* `Memory.Act`, `Memory.lastPut`: the same with any memory in the place of the first one, also with
  a copy that was kept and has a log of its own.
* `edited_actAll`: what is left are edits of the memory that was put in place last.
* `ScriptedRoutine.changed`: a script does nothing to the memory but edits and new memories.
* `Changed.rollBack_openLog`: rolling back reaches the memory in which the log was opened, or
  changes nothing at all.
* `execute_replaced`: what a failing service leaves that has replaced the memory, and the machine
  after it.
-/

namespace Lc3
set_option autoImplicit false
open Reference

/-! ## Edits and replacements -/

namespace Memory

/-- What a service that keeps no memory can do with the one in its hands. -/
inductive Change where
  | edit (e : Edit)
  /-- puts a new zeroed memory in its place -/
  | replace

def Change.apply : Change → Memory → Memory
  | edit e, m => e.apply m
  | replace, _ => zeroed

def changeAll (m : Memory) (cs : List Change) : Memory :=
  cs.foldl (fun m c => c.apply m) m

/-- Some edits and replacements lead from the first memory to the second. -/
def Changed (m m' : Memory) : Prop :=
  ∃ cs, m' = m.changeAll cs

theorem Changed.refl (m : Memory) : m.Changed m :=
  ⟨[], rfl⟩

theorem Changed.replace (m : Memory) : m.Changed zeroed :=
  ⟨[.replace], rfl⟩

theorem changeAll_append (m : Memory) (cs cs' : List Change) :
    m.changeAll (cs ++ cs') = (m.changeAll cs).changeAll cs' :=
  List.foldl_append

theorem Changed.trans {m m' m'' : Memory} (h : m.Changed m') (h' : m'.Changed m'') :
    m.Changed m'' := by
  obtain ⟨cs, rfl⟩ := h
  obtain ⟨cs', rfl⟩ := h'
  exact ⟨cs ++ cs', (changeAll_append m cs cs').symm⟩

theorem changeAll_edits (m : Memory) (es : List Edit) : m.changeAll (es.map .edit) = m.editAll es :=
  List.foldl_map

theorem changeAll_last_replace (m : Memory) (before : List Change) (es : List Edit) :
    m.changeAll (before ++ .replace :: es.map .edit) = zeroed.editAll es := by
  rw [changeAll_append]
  exact changeAll_edits zeroed es

theorem exists_edits {cs : List Change} (h : .replace ∉ cs) : ∃ es : List Edit, cs = es.map .edit := by
  induction cs with
  | nil => exact ⟨[], rfl⟩
  | cons c cs ih =>
    rw [List.mem_cons, not_or] at h
    obtain ⟨es, rfl⟩ := ih h.2
    cases c with
    | edit e => exact ⟨e :: es, rfl⟩
    | replace => exact absurd rfl h.1

theorem exists_last_replace {cs : List Change} (h : .replace ∈ cs) :
    ∃ before, ∃ es : List Edit, cs = before ++ .replace :: es.map .edit := by
  induction cs with
  | nil => cases h
  | cons c cs ih =>
    by_cases hr : .replace ∈ cs
    · obtain ⟨before, es, rfl⟩ := ih hr
      exact ⟨c :: before, es, rfl⟩
    · obtain rfl := (List.mem_cons.1 h).resolve_right hr
      obtain ⟨es, rfl⟩ := exists_edits hr
      exact ⟨[], es, rfl⟩

theorem undoLog_changeAll_none (m : Memory) {cs : List Change} (h : .replace ∈ cs) :
    (m.changeAll cs).undoLog = none := by
  obtain ⟨before, es, rfl⟩ := exists_last_replace h
  rw [changeAll_last_replace]
  exact Edited.undoLog_none ⟨es, rfl⟩ rfl

theorem Edited.changed {m m' : Memory} (h : m.Edited m') : m.Changed m' := by
  obtain ⟨es, rfl⟩ := h
  exact ⟨es.map .edit, (changeAll_edits m es).symm⟩

/-- Either the log is still the one that was opened and knows of all changes, or there is none. -/
theorem Changed.rollBack_openLog {m m' : Memory} (h : m.openLog.Changed m') :
    m'.rollBack = m.closeLog ∨ m'.rollBack = m' := by
  obtain ⟨cs, rfl⟩ := h
  by_cases hr : .replace ∈ cs
  · exact .inr (rollBack_eq_self (undoLog_changeAll_none _ hr))
  · obtain ⟨es, rfl⟩ := exists_edits hr
    rw [changeAll_edits]
    exact .inl (rollBack_edits m es)

/-! ## Memories with a log of their own -/

/-- All that a service can do with the memory in its hands. The memory that it puts in place of that
one is new, or it is a copy that was kept, with the log that was open when it was made. -/
inductive Act where
  | edit (e : Edit)
  | put (other : Memory)

def Act.apply : Act → Memory → Memory
  | edit e, m => e.apply m
  | put other, _ => other

def actAll (m : Memory) (acts : List Act) : Memory :=
  acts.foldl (fun m act => act.apply m) m

/-- The memory that is put in place last. -/
def lastPut : List Act → Option Memory
  | [] => none
  | .edit _ :: acts => lastPut acts
  | .put other :: acts => some ((lastPut acts).getD other)

def Change.act : Change → Act
  | edit e => .edit e
  | replace => .put zeroed

theorem actAll_changes (m : Memory) (cs : List Change) :
    m.actAll (cs.map Change.act) = m.changeAll cs := by
  induction cs generalizing m with
  | nil => rfl
  | cons c cs ih => cases c <;> exact ih _

theorem actAll_edits (m : Memory) (es : List Edit) : m.actAll (es.map .edit) = m.editAll es :=
  List.foldl_map

theorem lastPut_edits (es : List Edit) : lastPut (es.map .edit) = none := by
  induction es with
  | nil => rfl
  | cons e es ih => exact ih

/-- Whatever was done before a memory was put in place has no part in what is left. -/
theorem edited_actAll (m : Memory) (acts : List Act) :
    ((lastPut acts).getD m).Edited (m.actAll acts) := by
  induction acts generalizing m with
  | nil => exact .refl m
  | cons act acts ih =>
    cases act with
    | put other => exact ih other
    | edit e =>
      have hrest := ih (e.apply m)
      rw [lastPut]
      cases hlast : lastPut acts with
      | none =>
        rw [hlast] at hrest
        exact (Edited.apply m e).trans hrest
      | some other =>
        rw [hlast] at hrest
        exact hrest

end Memory

/-! ## Scripts -/

theorem Action.perform_changed {call : Word} {s : State} {action : Action} {p : Progress}
    (h : action.perform call s = .ok p) : s.mem.Changed p.state.mem := by
  by_cases hnew : action = .newMemory
  · subst hnew
    cases h
    exact .replace _
  · exact (perform_edited hnew h).changed

theorem ScriptedRoutine.changed {routine : ScriptedRoutine} {s : State}
    {served : Served ScriptedRoutine} (h : ServiceRoutine.call routine s = .ok served) :
    s.mem.Changed served.state.mem := by
  obtain ⟨end', hend, h⟩ := bind_eq_ok.1 h
  cases h
  refine Action.performAll_relates .refl (fun _ _ _ => .trans) (fun action _ s p hp => ?_) hend
  exact Action.perform_changed hp

/-! ## Failing services -/

namespace Machine
variable {σ : Type} [TrapHandler σ]

/-- Between commands, a step that fails leaves the whole state as it was, up to the log that nobody
sees. -/
theorem Executes.state_eq_of_error {m : Machine σ} {word : Word} {step : Step σ}
    {e : ExecutionError} (h : m.Executes word step) (hq : m.Quiet) (hm : m.CallsEditor word)
    (he : step.result = .error e) : step.machine.state = m.state := by
  obtain ⟨hregs, hcells⟩ := h.restores hm he
  exact State.ext_read hregs hcells ((h.quiet hq).trans hq.symm)

/-- A TRAP whose service fails after it has replaced the memory restores the registers, but leaves
the memory as the service left it: the last new memory with the edits after it. Neither is undone,
and nothing from before is left. Later services that fail and only edit the memory are rolled back
as ever. -/
theorem execute_replaced (m : Machine σ) (word : Word) (served : Served σ) (e : ServiceError)
    (cs : List Memory.Change) (hpc : m.pc ≠ 0xFFFF) (hop : bits word 12 4 = 0xF)
    (hs : TrapHandler.invoke (vector word) m.handler m.state.entry = .ok served)
    (hr : served.reply = .error e) (hcs : .replace ∈ cs)
    (hm : served.state.mem = m.state.entry.mem.changeAll cs) :
    ∃ step, m.execute word = .ok step ∧
      step.result = .error (e.toExecutionError (vector word) m.pc) ∧
      step.machine.handler = served.server ∧
      step.machine.state.regs = m.state.regs ∧
      step.machine.state.mem = served.state.mem ∧
      (∃ before, ∃ es : List Memory.Edit, cs = before ++ .replace :: es.map .edit ∧
        step.machine.state.mem = Memory.zeroed.editAll es) ∧
      ∀ m', step.machine.LeadsTo m' → ∀ word' step' e', m'.CallsEditor word' →
        m'.execute word' = .ok step' → step'.result = .error e' →
          step'.machine.state = m'.state := by
  have hleft : served.state.mem.rollBack = served.state.mem := by
    rw [hm]
    exact Memory.rollBack_eq_self (Memory.undoLog_changeAll_none _ hcs)
  refine ⟨_, (Executes.refused hpc (decode_eq_trap word hop) hs hr).execute_eq, rfl, rfl, rfl, hleft,
    ?_, ?_⟩
  · obtain ⟨before, es, rfl⟩ := Memory.exists_last_replace hcs
    refine ⟨before, es, rfl, hleft.trans ?_⟩
    rw [hm, Memory.changeAll_last_replace]
  · intro m' hm' word' step' e' hedits h he
    have hq : m'.Quiet := hm'.quiet (Memory.undoLog_rollBack _)
    exact (execute_eq_ok_iff.1 h).state_eq_of_error hq hedits he

/-- A routine that puts two new memories in place of the first and writes into each of the three. -/
def remake : ScriptedRoutine where
  actions :=
    [.poke 0x4000 1, .newMemory, .poke 0x4000 2, .set 0 99, .newMemory, .poke 0x4001 3,
      .load 0x4001 [4, 5], .set 7 0x2222, .setPc 0x1111]
  reply := .error .failed

/-- The changes that `remake` makes. -/
def remaking : List Memory.Change :=
  [.edit (.write 0x4000 1), .replace, .edit (.write 0x4000 2), .replace, .edit (.write 0x4001 3),
    .edit (.load 0x4001 [4, 5])]

/-- The state is that of `scribbled`; vector 0x30 calls `remake`, and 0x31 calls `scribble`. -/
def remade : Machine (TrapTable ScriptedRoutine) where
  state := scribbled.state
  handler := (TrapTable.empty.register 0x31 (.routine scribble)).register 0x30 (.routine remake)

theorem remade_get? : remade.handler.get? 0x31 = some (.routine scribble) := by
  rw [remade, TrapTable.register, TrapTable.get?_set, if_neg (by decide), TrapTable.get?_register]

theorem remade_invoke (s : State) :
    ∃ served, TrapHandler.invoke (vector 0xF030) remade.handler s = .ok served ∧
      served.reply = .error .failed ∧ served.state.mem = s.mem.changeAll remaking ∧
      served.server.get? 0x31 = some (.routine scribble) := by
  have hget : remade.handler.get? 0x30 = some (.routine remake) := TrapTable.get?_register _ _ _
  rw [show vector 0xF030 = 0x30 from rfl, TrapTable.invoke_registered hget]
  refine ⟨_, rfl, rfl, rfl, ?_⟩
  rw [TrapTable.get?_set, if_neg (by decide)]
  exact remade_get?

theorem execute_replaced_remade :
    remade.pc ≠ 0xFFFF ∧ bits 0xF030 12 4 = 0xF ∧
      ∃ step, remade.execute 0xF030 = .ok step ∧
        step.result = .error (.trapRoutineFailed 0x30) ∧
        step.machine.state.regs = remade.state.regs ∧
        step.machine.state.mem.read 0x4000 = 0 ∧ step.machine.state.mem.read 0x4001 = 4 ∧
        ∀ step' e, step.machine.execute 0xF031 = .ok step' → step'.result = .error e →
          step'.machine.state = step.machine.state := by
  have hpc : remade.pc ≠ 0xFFFF := by decide
  obtain ⟨served, hs, hr, hm, hget⟩ := remade_invoke remade.state.entry
  obtain ⟨step, hstep, hres, hhandler, hregs, hmem, -, hlater⟩ :=
    execute_replaced remade 0xF030 served .failed remaking hpc rfl hs hr (by simp [remaking]) hm
  have hleft : step.machine.state.mem =
      ((Memory.zeroed.write 0x4001 3).write 0x4001 4).write 0x4002 5 := hmem.trans hm
  have hedits : step.machine.CallsEditor 0xF031 := by
    refine callsEditor_of_script (v := 0x31) rfl ?_ scribble_edits
    rw [hhandler]
    exact hget
  refine ⟨hpc, rfl, step, hstep, hres, hregs, ?_, ?_, fun step' e h he =>
    hlater _ .refl 0xF031 step' e hedits h he⟩
  · rw [hleft]
    simp [Memory.read_write]
  · rw [hleft]
    simp [Memory.read_write]

end Machine

end Lc3
