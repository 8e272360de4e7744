import Lc3.Proofs.Sessions

/-! # The instructions that a session executes

A session executes instructions in some of its commands, one after another; the other commands set
the machine from outside. Histories of a machine are stated over the list of what was executed.

* `Machine.executions`: the instructions of a run, up to the first that does not proceed.
* `Command.executions`, `Command.executionsAll`: the instructions of a command and of a session.
* `Machine.Chain`: each execution starts from the machine that the one before it left.
* `Concludes`, `Runs.concludes`: how the result of a run follows from its executions.
* `Machine.Sets`, `Command.perform_cases`: a command is a chain of executions, or it sets the machine.
-/

namespace Lc3
set_option autoImplicit false

/-- A word that was executed, with the machine that it found and the way in which it ended. -/
structure Execution (σ : Type) where
  before : Machine σ
  word : Word
  step : Step σ

def Execution.eventsAll {σ : Type} (es : List (Execution σ)) : List Event :=
  es.flatMap fun e => e.step.events

theorem Execution.eventsAll_cons {σ : Type} (e : Execution σ) (es : List (Execution σ)) :
    eventsAll (e :: es) = e.step.events ++ eventsAll es :=
  List.flatMap_cons

def Machine.fetch {σ : Type} (m : Machine σ) : Word :=
  m.state.mem.read m.pc

namespace Machine
variable {σ : Type} [TrapHandler σ]

/-! ## Executions -/

/-- The execution of `word`; none if it breaks a contract. -/
def executing (m : Machine σ) (word : Word) : List (Execution σ) :=
  match m.execute word with
  | .ok step => [{ before := m, word, step }]
  | .error _ => []

/-- What at most `n` steps execute. A step after which the machine does not go on is the last. -/
def executions : Nat → Machine σ → List (Execution σ)
  | 0, _ => []
  | n + 1, m =>
    match m.step with
    | .error _ => []
    | .ok step =>
      { before := m, word := m.fetch, step } ::
        match step.result with
        | .ok .proceed => executions n step.machine
        | _ => []

/-- `m.Chain es m'`: the executions `es` lead from `m` to `m'`. -/
inductive Chain : Machine σ → List (Execution σ) → Machine σ → Prop
  | nil (m : Machine σ) : Chain m [] m
  | cons {m m' : Machine σ} {word : Word} {step : Step σ} {es : List (Execution σ)}
      (hs : m.Executes word step) (rest : Chain step.machine es m') :
      Chain m ({ before := m, word, step } :: es) m'

variable {m m' m'' : Machine σ} {es es' : List (Execution σ)}

theorem Chain.append (h : m.Chain es m') (h' : m'.Chain es' m'') : m.Chain (es ++ es') m'' := by
  induction h with
  | nil m => exact h'
  | cons hs _ ih => exact .cons hs (ih h')

theorem executing_chain {word : Word} {step : Step σ} (h : m.execute word = .ok step) :
    m.Chain (m.executing word) step.machine := by
  unfold executing
  rw [h]
  exact .cons (execute_eq_ok_iff.1 h) (.nil _)

/-! ## Runs -/

def Proceeding (es : List (Execution σ)) : Prop :=
  ∀ e ∈ es, e.step.result = .ok .proceed

/-- The result of a run with these executions. All but the last proceed; the last one halts or
fails, or it proceeds too and the run is at its limit. -/
inductive Concludes : List (Execution σ) → Except ExecutionError RunOutcome → Prop
  | limited {front : List (Execution σ)} (hp : Proceeding front) :
      Concludes front (.ok (.limitReached front.length))
  | halted {front : List (Execution σ)} {last : Execution σ} (hp : Proceeding front)
      (hr : last.step.result = .ok .halted) :
      Concludes (front ++ [last]) (.ok (.halted (front.length + 1)))
  | failed {front : List (Execution σ)} {last : Execution σ} {e : ExecutionError}
      (hp : Proceeding front) (hr : last.step.result = .error e) :
      Concludes (front ++ [last]) (.error e)

omit [TrapHandler σ] in
theorem Concludes.cons {e : Execution σ} {es : List (Execution σ)}
    {result : Except ExecutionError RunOutcome} (he : e.step.result = .ok .proceed)
    (h : Concludes es result) : Concludes (e :: es) (result.map (.after 1)) := by
  cases h with
  | limited hp =>
    have hall := Concludes.limited (List.forall_mem_cons.2 ⟨he, hp⟩)
    rw [List.length_cons, Nat.add_comm] at hall
    exact hall
  | halted hp hr =>
    have hall := Concludes.halted (List.forall_mem_cons.2 ⟨he, hp⟩) hr
    rw [List.length_cons, Nat.add_comm] at hall
    exact hall
  | failed hp hr => exact .failed (List.forall_mem_cons.2 ⟨he, hp⟩) hr

omit [TrapHandler σ] in
theorem Concludes.single_failed {last : Execution σ} {e : ExecutionError}
    (hr : last.step.result = .error e) : Concludes [last] (.error e) := by
  have hp : Proceeding ([] : List (Execution σ)) := List.forall_mem_nil _
  exact .failed hp hr

theorem executions_proceed {first : Step σ} (hs : m.step = .ok first)
    (hr : first.result = .ok .proceed) (n : Nat) :
    m.executions (n + 1) =
      { before := m, word := m.fetch, step := first } :: first.machine.executions n := by
  simp only [executions, hs, hr]

theorem executions_stop {last : Step σ} (hs : m.step = .ok last)
    (hr : last.result ≠ .ok .proceed) (n : Nat) :
    m.executions (n + 1) = [{ before := m, word := m.fetch, step := last }] := by
  rw [executions, hs]
  rcases h : last.result with e | outcome
  · simp only [h]
  · cases outcome with
    | proceed => exact absurd h hr
    | halted => simp only [h]

/-! The steps of `Proceeds` are the executions of the run that makes them all. -/

variable {k : Nat} {events : List Event}

theorem Proceeds.executions_add (h : m.Proceeds k events m') (n : Nat) :
    m.executions (k + n) = m.executions k ++ m'.executions n := by
  induction h with
  | refl m =>
    rw [Nat.zero_add]
    rfl
  | head hs hr _ ih =>
    rw [Nat.add_right_comm, executions_proceed hs hr, ih, executions_proceed hs hr,
      List.cons_append]

theorem Proceeds.length_executions (h : m.Proceeds k events m') : (m.executions k).length = k := by
  induction h with
  | refl m => rfl
  | head hs hr _ ih => rw [executions_proceed hs hr, List.length_cons, ih]

theorem Proceeds.proceeding (h : m.Proceeds k events m') : Proceeding (m.executions k) := by
  induction h with
  | refl m => exact List.forall_mem_nil _
  | head hs hr _ ih =>
    rw [executions_proceed hs hr]
    exact List.forall_mem_cons.2 ⟨hr, ih⟩

theorem Proceeds.eventsAll (h : m.Proceeds k events m') :
    Execution.eventsAll (m.executions k) = events := by
  induction h with
  | refl m => rfl
  | head hs hr _ ih => rw [executions_proceed hs hr, Execution.eventsAll_cons, ih]

theorem Proceeds.chain (h : m.Proceeds k events m') : m.Chain (m.executions k) m' := by
  induction h with
  | refl m => exact .nil m
  | head hs hr _ ih =>
    rw [executions_proceed hs hr]
    exact .cons (execute_eq_ok_iff.1 hs) ih

theorem Proceeds.executions_last {max : Nat} {last : Step σ} (h : m.Proceeds k events m')
    (hk : k < max) (hs : m'.step = .ok last) (hr : last.result ≠ .ok .proceed) :
    m.executions max =
      m.executions k ++ [{ before := m', word := m'.fetch, step := last }] := by
  obtain ⟨n, rfl⟩ : ∃ n, max = k + (n + 1) := ⟨max - k - 1, by omega⟩
  rw [h.executions_add, executions_stop hs hr]

theorem exists_proceeds_of_mem {n : Nat} {e : Execution σ} (he : e ∈ m.executions n) :
    ∃ i events, i < n ∧ m.Proceeds i events e.before ∧ e.before.step = .ok e.step ∧
      e.word = e.before.fetch := by
  induction n generalizing m with
  | zero => cases he
  | succ n ih =>
    rw [executions] at he
    cases hs : m.step with
    | error cause =>
      rw [hs] at he
      cases he
    | ok first =>
      simp only [hs] at he
      rcases List.mem_cons.1 he with rfl | he
      · exact ⟨0, [], Nat.succ_pos n, .refl m, hs, rfl⟩
      · split at he
        case h_1 hr =>
          obtain ⟨i, events, hi, hp, hlast⟩ := ih he
          exact ⟨i + 1, _, Nat.succ_lt_succ hi, .head hs hr hp, hlast⟩
        case h_2 => cases he

/-- A run goes on after all its executions but the last. -/
theorem proceeding_dropLast (m : Machine σ) (n : Nat) : Proceeding (m.executions n).dropLast := by
  induction n generalizing m with
  | zero => exact List.forall_mem_nil _
  | succ n ih =>
    cases hs : m.step with
    | error cause =>
      rw [executions, hs]
      exact List.forall_mem_nil _
    | ok step =>
      by_cases hr : step.result = .ok .proceed
      · have hrest := ih step.machine
        rw [executions_proceed hs hr]
        cases he : step.machine.executions n with
        | nil => exact List.forall_mem_nil _
        | cons e es =>
          rw [he] at hrest
          exact List.forall_mem_cons.2 ⟨hr, hrest⟩
      · rw [executions_stop hs hr]
        exact List.forall_mem_nil _

variable {max : Nat} {run : Run σ}

theorem Runs.chain (h : m.Runs max run) : m.Chain (m.executions max) run.machine := by
  cases h with
  | halted hk hp hs hr | failed hk hp hs hr =>
    rw [hp.executions_last hk hs (by simp [hr])]
    exact hp.chain.append (.cons (execute_eq_ok_iff.1 hs) (.nil _))
  | limited hp => exact hp.chain

theorem Runs.concludes (h : m.Runs max run) : Concludes (m.executions max) run.result := by
  cases h with
  | @halted k events m' last hk hp hs hr =>
    let e : Execution σ := { before := m', word := m'.fetch, step := last }
    have hlast : Concludes (m.executions k ++ [e]) _ := .halted hp.proceeding hr
    rw [hp.length_executions] at hlast
    rw [hp.executions_last hk hs (by simp [hr])]
    exact hlast
  | failed hk hp hs hr =>
    rw [hp.executions_last hk hs (by simp [hr])]
    exact .failed hp.proceeding hr
  | limited hp =>
    have hall := Concludes.limited hp.proceeding
    rw [hp.length_executions] at hall
    exact hall

end Machine

/-! ## Commands -/

/-- What a command does that executes nothing. -/
inductive Machine.Sets {σ : Type} (m : Machine σ) : Command → Machine σ → Prop
  | reset : Sets m .reset m.reset
  | setPc (w : Word) : Sets m (.setPc w) (m.setPc w)
  | setRegister {r : Byte} {w : Word} {regs : RegisterFile} (h : m.state.regs.write r w = .ok regs) :
      Sets m (.setRegister r w) { m with state := { m.state with regs } }
  | load {a : Word} {ws : List Word} {mem : Memory} (h : m.state.mem.load a ws = .ok mem) :
      Sets m (.load a ws) { m with state := { m.state with mem } }
  | loadRefused {a : Word} {ws : List Word} {e : LoadError} (h : m.load a ws = .error e) :
      Sets m (.load a ws) m
  | image {origin : Word} {program : List Word} {mem : Memory}
      (h : m.state.mem.load origin program = .ok mem) :
      Sets m (.loadImage (origin :: program))
        { m with state := { regs := { m.state.regs with pc := origin }, mem } }
  | imageRefused {image : List Word} {e : LoadError} (h : m.loadImage image = .error e) :
      Sets m (.loadImage image) m
  | edit {e : Memory.Edit} {mem : Memory} (h : e.perform m.state.mem = .ok mem) :
      Sets m (.edit e) { m with state := { m.state with mem } }
  | editRefused {e : Memory.Edit} {cause : LoadError} (h : m.edit e = .error cause) :
      Sets m (.edit e) m

namespace Command
open Machine
variable {σ : Type} {m : Machine σ}

theorem load_sets (a : Word) (ws : List Word) :
    m.Sets (.load a ws) (Performed.ofLoad m (m.load a ws)).machine := by
  cases h : m.load a ws with
  | error e => exact .loadRefused h
  | ok loaded =>
    obtain ⟨mem, hl, h⟩ := bind_eq_ok.1 h
    cases h
    exact .load hl

theorem loadImage_sets (image : List Word) :
    m.Sets (.loadImage image) (Performed.ofLoad m (m.loadImage image)).machine := by
  cases h : m.loadImage image with
  | error e => exact .imageRefused h
  | ok loaded =>
    cases image with
    | nil => cases h
    | cons origin program =>
      obtain ⟨loaded', hload, h⟩ := bind_eq_ok.1 h
      obtain ⟨mem, hmem, hload⟩ := bind_eq_ok.1 hload
      cases hload
      cases h
      exact .image hmem

theorem edit_sets (e : Memory.Edit) : m.Sets (.edit e) (Performed.ofEdit m (m.edit e)).machine := by
  cases h : m.edit e with
  | error cause => exact .editRefused h
  | ok edited =>
    obtain ⟨mem, he, h⟩ := bind_eq_ok.1 h
    cases h
    exact .edit he

/-- The command executes instructions; any other one sets the machine from outside. -/
def Executing : Command → Prop
  | step | execute _ | run | runLimit _ => True
  | reset | load .. | loadImage _ | setPc _ | setRegister .. | edit _ => False

variable [TrapHandler σ] {fuel : Nat}

def executions (fuel : Nat) (m : Machine σ) : Command → List (Execution σ)
  | step => m.executing m.fetch
  | execute word => m.executing word
  | run => m.executions fuel
  | runLimit max => m.executions max
  | reset | load .. | loadImage _ | setPc _ | setRegister .. | edit _ => []

/-- The instructions that a series of commands executes, up to its end or to a command that does
not return. -/
def executionsAll (fuel : Nat) : List Command → Machine σ → List (Execution σ)
  | [], _ => []
  | command :: commands, m =>
    command.executions fuel m ++
      match command.perform fuel m with
      | .ok (some performed) => executionsAll fuel commands performed.machine
      | _ => []

theorem perform_cases {command : Command} {performed : Performed σ}
    (h : command.perform fuel m = .ok (some performed)) :
    command.Executing ∧ m.Chain (command.executions fuel m) performed.machine ∨
      m.Sets command performed.machine ∧ command.executions fuel m = [] := by
  cases command with
  | reset =>
    cases h
    exact .inr ⟨.reset, rfl⟩
  | load a ws =>
    cases h
    exact .inr ⟨load_sets a ws, rfl⟩
  | loadImage image =>
    cases h
    exact .inr ⟨loadImage_sets image, rfl⟩
  | step | execute word =>
    obtain ⟨step, hs, h⟩ := bind_eq_ok.1 h
    cases h
    exact .inl ⟨trivial, executing_chain hs⟩
  | run =>
    obtain ⟨run?, hr, h⟩ := bind_eq_ok.1 h
    cases run? with
    | none => cases h
    | some run =>
      cases h
      exact .inl ⟨trivial, (runLimit_eq_ok_iff.1 (run_eq_some_iff.1 hr).1).chain⟩
  | runLimit max =>
    obtain ⟨run, hr, h⟩ := bind_eq_ok.1 h
    cases h
    exact .inl ⟨trivial, (runLimit_eq_ok_iff.1 hr).chain⟩
  | setPc w =>
    cases h
    exact .inr ⟨.setPc w, rfl⟩
  | setRegister r w =>
    obtain ⟨changed, hc, h⟩ := bind_eq_ok.1 h
    obtain ⟨regs, hregs, hc⟩ := bind_eq_ok.1 hc
    cases hc
    cases h
    exact .inr ⟨.setRegister hregs, rfl⟩
  | edit e =>
    cases h
    exact .inr ⟨edit_sets e, rfl⟩

theorem performAll_cons {command : Command} {commands : List Command} {m' : Machine σ}
    (h : performAll fuel (command :: commands) m = .ok (some m')) :
    ∃ performed, command.perform fuel m = .ok (some performed) ∧
      performAll fuel commands performed.machine = .ok (some m') ∧
      executionsAll fuel (command :: commands) m =
        command.executions fuel m ++ executionsAll fuel commands performed.machine := by
  obtain ⟨performed?, hp, h⟩ := bind_eq_ok.1 h
  cases performed? with
  | none => cases h
  | some performed => exact ⟨performed, hp, h, by rw [executionsAll, hp]⟩

/-- What everything that a command can do keeps, a session keeps. -/
theorem performAll_keeps {P : Machine σ → Prop} (hmoves : ∀ m m', P m → m.Moves m' → P m')
    {commands : List Command} {m' : Machine σ}
    (h : performAll fuel commands m = .ok (some m')) (hm : P m) : P m' := by
  induction commands generalizing m with
  | nil =>
    cases h
    exact hm
  | cons command commands ih =>
    obtain ⟨performed, hp, hrest, -⟩ := performAll_cons h
    exact ih hrest (hmoves _ _ hm (perform_moves hp))

end Command

end Lc3
