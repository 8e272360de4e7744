import Lc3.Memory.Lemmas
import Lc3.Proofs.Execution
import Lc3.Trap.Script

/-! # Services that edit the memory they are given

A service is given a memory with an open undo log. As long as it changes this memory by edits
only, the log knows all that it did.

* `Memory.editAll`, `Memory.Edited`: edits one after another, and what can be reached by them.
* `Edited.rollBack_openLog`: rolling back reaches the memory in which the log was opened.
* `Edited.rollBack_eq`: what rolling back reaches if the log was opened before, or not at all.
* `TrapHandler.EditsMemory`: the service of a vector does nothing but edits.
* `TrapTable.editsMemory`: the service of a table does if the routine of the vector does.
* `ScriptedRoutine.editsMemory`: a script does if it never puts another memory in place of its own.
-/

namespace Lc3
set_option autoImplicit false

/-! ## Edits one after another -/

namespace Memory
variable {m m' m'' : Memory}

def editAll (m : Memory) (es : List Edit) : Memory :=
  es.foldl (fun m e => e.apply m) m

/-- Some edits lead from the first memory to the second. -/
def Edited (m m' : Memory) : Prop :=
  ∃ es, m' = m.editAll es

theorem editAll_append (m : Memory) (es es' : List Edit) :
    m.editAll (es ++ es') = (m.editAll es).editAll es' :=
  List.foldl_append

theorem Edited.refl (m : Memory) : m.Edited m :=
  ⟨[], rfl⟩

theorem Edited.trans (h : m.Edited m') (h' : m'.Edited m'') : m.Edited m'' := by
  obtain ⟨es, rfl⟩ := h
  obtain ⟨es', rfl⟩ := h'
  exact ⟨es ++ es', (editAll_append m es es').symm⟩

theorem Edited.write (m : Memory) (a w : Word) : m.Edited (m.write a w) :=
  ⟨[.write a w], rfl⟩

theorem Edited.clear (m : Memory) : m.Edited m.clear :=
  ⟨[.clear], rfl⟩

theorem Edited.apply (m : Memory) (e : Edit) : m.Edited (e.apply m) :=
  ⟨[e], rfl⟩

theorem Edited.perform {e : Edit} (h : e.perform m = .ok m') : m.Edited m' := by
  refine ⟨[e], ?_⟩
  rw [editAll, List.foldl_cons, List.foldl_nil, Edit.apply, h]

theorem Edited.load {a : Word} {ws : List Word} (h : m.load a ws = .ok m') : m.Edited m' :=
  .perform (e := .load a ws) h

theorem Edited.undoLog_none (h : m.Edited m') (hm : m.undoLog = none) : m'.undoLog = none := by
  obtain ⟨es, rfl⟩ := h
  induction es generalizing m with
  | nil => exact hm
  | cons e es ih => exact ih (undoLog_apply_none e hm)

theorem Edited.rollBack_openLog (h : m.openLog.Edited m') : m'.rollBack = m.closeLog := by
  obtain ⟨es, rfl⟩ := h
  exact rollBack_edits m es

/-- An open log has recorded the edits along with what it had recorded before. Without one nothing
is undone. -/
theorem Edited.rollBack_eq (h : m.Edited m') :
    m'.rollBack = if m.undoLog.isSome then m.rollBack else m' := by
  by_cases hlog : m.undoLog.isSome
  · obtain ⟨es, rfl⟩ := h
    rw [if_pos hlog]
    exact rollBack_applyAll es hlog
  · rw [if_neg hlog]
    exact rollBack_eq_self (h.undoLog_none (Option.not_isSome_iff_eq_none.1 hlog))

end Memory

/-! ## Scripts -/

def Progress.state : Progress → State
  | next s => s
  | done _ s => s

namespace Action
variable {call : Word} {reply : Reply} {s : State}

theorem perform_edited {action : Action} {p : Progress} (hne : action ≠ .newMemory)
    (h : action.perform call s = .ok p) : s.mem.Edited p.state.mem := by
  cases action with
  | newMemory => exact absurd rfl hne
  | setPc word | newRegisters =>
    cases h
    exact .refl _
  | poke address word =>
    cases h
    exact .write _ _ _
  | resetMemory =>
    cases h
    exact .clear _
  | set r word | getPc r | add dr sr value | count r =>
    obtain ⟨regs, -, h⟩ := bind_eq_ok.1 h
    cases h
    exact .refl _
  | move target source | loadWord target source =>
    obtain ⟨word, -, h⟩ := bind_eq_ok.1 h
    obtain ⟨regs, -, h⟩ := bind_eq_ok.1 h
    cases h
    exact .refl _
  | storeWord address source =>
    obtain ⟨a, -, h⟩ := bind_eq_ok.1 h
    obtain ⟨word, -, h⟩ := bind_eq_ok.1 h
    cases h
    exact .write _ _ _
  | load address words =>
    rw [perform] at h
    cases hl : s.mem.load address words with
    | ok mem =>
      rw [hl] at h
      cases h
      exact .load hl
    | error e =>
      rw [hl] at h
      cases h
      exact .refl _
  | failFromCall n =>
    rw [perform] at h
    split at h
    all_goals
      cases h
      exact .refl _
  | failIfZero r | haltIfNegative r =>
    obtain ⟨word, -, h⟩ := bind_eq_ok.1 h
    split at h
    all_goals
      cases h
      exact .refl _

/-- Each action that is performed starts from the memory that the actions before it left. -/
theorem performAll_relates {R : Memory → Memory → Prop} {actions : List Action}
    {end' : Reply × State} (hrefl : ∀ m, R m m) (htrans : ∀ m m' m'', R m m' → R m' m'' → R m m'')
    (hstep : ∀ action ∈ actions, ∀ s p, action.perform call s = .ok p → R s.mem p.state.mem)
    (h : performAll call reply actions s = .ok end') : R s.mem end'.2.mem := by
  induction actions generalizing s with
  | nil =>
    cases h
    exact hrefl _
  | cons action actions ih =>
    rw [List.forall_mem_cons] at hstep
    obtain ⟨p, hp, h⟩ := bind_eq_ok.1 h
    have hfirst := hstep.1 s p hp
    cases p with
    | next s' => exact htrans _ _ _ hfirst (ih hstep.2 h)
    | done r s' =>
      cases h
      exact hfirst

theorem performAll_edited {actions : List Action} {end' : Reply × State}
    (hne : .newMemory ∉ actions) (h : performAll call reply actions s = .ok end') :
    s.mem.Edited end'.2.mem := by
  refine performAll_relates .refl (fun _ _ _ => .trans) (fun action hmem s p hp => ?_) h
  exact perform_edited (ne_of_mem_of_not_mem hmem hne) hp

end Action

/-! ## Routines and handlers -/

/-- Whatever a call of the routine in state `s` does to the memory, it does by edits. -/
def ServiceRoutine.EditsMemory {ρ : Type} [ServiceRoutine ρ] (routine : ρ) (s : State) : Prop :=
  ∀ served, call routine s = .ok served → s.mem.Edited served.state.mem

/-- Whatever the service of `vector`, called in state `s`, does to the memory, it does by edits. -/
def TrapHandler.EditsMemory {σ : Type} [TrapHandler σ] (handler : σ) (vector : Byte) (s : State) :
    Prop :=
  ∀ served, invoke vector handler s = .ok served → s.mem.Edited served.state.mem

theorem ScriptedRoutine.editsMemory {routine : ScriptedRoutine} (hne : .newMemory ∉ routine.actions)
    (s : State) : ServiceRoutine.EditsMemory routine s := by
  intro served h
  obtain ⟨end', hend, h⟩ := bind_eq_ok.1 h
  cases h
  exact Action.performAll_edited hne hend

namespace TrapTable
variable {ρ : Type} [ServiceRoutine ρ] {table : TrapTable ρ} {vector : Byte} {s : State}

theorem invoke_unregistered (h : table.get? vector = none) :
    TrapHandler.invoke vector table s =
      .ok { reply := .error .unregistered, server := table, state := s } := by
  simp only [TrapHandler.invoke, h]

theorem invoke_registered {service : Service ρ} (h : table.get? vector = some service) :
    TrapHandler.invoke vector table s =
      (service.call s).map fun served =>
        { reply := served.reply, server := table.set vector (some served.server),
          state := served.state } := by
  simp only [TrapHandler.invoke, h]
  cases service.call s <;> rfl

/-- A table does what its routine does, or nothing. -/
theorem left_of_routine {P : State → Prop} (hs : P s)
    (h : ∀ routine, table.get? vector = some (.routine routine) →
      ∀ served, ServiceRoutine.call routine s = .ok served → P served.state) :
    ∀ served, TrapHandler.invoke vector table s = .ok served → P served.state := by
  intro served hserved
  cases hget : table.get? vector with
  | none =>
    rw [invoke_unregistered hget] at hserved
    cases hserved
    exact hs
  | some service =>
    rw [invoke_registered hget] at hserved
    cases service with
    | halt =>
      cases hserved
      exact hs
    | routine routine =>
      rw [Service.call] at hserved
      cases hr : ServiceRoutine.call routine s with
      | error cause =>
        rw [hr] at hserved
        cases hserved
      | ok served' =>
        rw [hr] at hserved
        cases hserved
        exact h routine hget served' hr

theorem editsMemory (h : ∀ routine, table.get? vector = some (.routine routine) →
    ServiceRoutine.EditsMemory routine s) : TrapHandler.EditsMemory table vector s :=
  left_of_routine (P := fun left => s.mem.Edited left.mem) (.refl _) h

end TrapTable

end Lc3
