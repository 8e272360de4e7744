import Lc3.Machine.Run
import Lc3.Proofs.Editing

/-! # Runs as steps one after another

A run is nothing but steps: each fetches its word from the memory that the step before it left, so
a program that rewrites itself, or is rewritten by a service, runs as rewritten.

* `Machine.Proceeds`: some number of steps, after each of which the machine can go on.
* `Machine.Runs`: the three ways in which a run with a limit ends, each with the whole run. A step
  halts the machine, or a step fails, or all steps that are allowed were made.
* `runLimit_eq_ok_iff`, `runLimit_eq_error_iff`: there is no other way, apart from the misuse of a
  service.
* `run_eq_some_iff`: a run without a limit is a run with a limit that it does not reach.
* `runLimit_iterates`: the account of runs, their limits and their parts.
* `Proceeds.keeps`, `Runs.keeps`: what every step keeps, a run keeps.
-/

namespace Lc3
set_option autoImplicit false

/-- The outcome of a run whose steps were counted from the end of `n` earlier ones. -/
def RunOutcome.after (n : Nat) : RunOutcome → RunOutcome
  | halted steps => halted (n + steps)
  | limitReached steps => limitReached (n + steps)

/-- The run halted or failed; it did not just use up its limit. -/
def Run.Finished {σ : Type} (run : Run σ) : Prop :=
  ∀ steps, run.result ≠ .ok (.limitReached steps)

namespace Machine

variable {σ : Type} [TrapHandler σ]

/-! ## Steps that the machine goes on after -/

/-- `m.Proceeds n events m'`: from `m`, `n` steps lead to `m'` and report `events`, and after each
of them the machine can go on. -/
inductive Proceeds : Machine σ → Nat → List Event → Machine σ → Prop
  | refl (m : Machine σ) : Proceeds m 0 [] m
  | head {m m' : Machine σ} {first : Step σ} {n : Nat} {events : List Event}
      (hs : m.step = .ok first) (hr : first.result = .ok .proceed)
      (rest : Proceeds first.machine n events m') :
      Proceeds m (n + 1) (first.events ++ events) m'

theorem Proceeds.trans {m m' m'' : Machine σ} {a b : Nat} {es es' : List Event}
    (h : m.Proceeds a es m') (h' : m'.Proceeds b es' m'') :
    m.Proceeds (a + b) (es ++ es') m'' := by
  induction h with
  | refl m =>
    rw [Nat.zero_add]
    exact h'
  | head hs hr _ ih =>
    rw [Nat.add_right_comm, List.append_assoc]
    exact .head hs hr (ih h')

theorem Proceeds.tail {m m' : Machine σ} {n : Nat} {es : List Event} {last : Step σ}
    (h : m.Proceeds n es m') (hs : m'.step = .ok last) (hr : last.result = .ok .proceed) :
    m.Proceeds (n + 1) (es ++ last.events) last.machine := by
  have hlast := h.trans (.head hs hr (.refl last.machine))
  rw [List.append_nil] at hlast
  exact hlast

theorem Proceeds.take {m m' : Machine σ} {n : Nat} {es : List Event} (h : m.Proceeds n es m')
    {k : Nat} (hk : k ≤ n) : ∃ es' m'', m.Proceeds k es' m'' := by
  induction h generalizing k with
  | refl m =>
    obtain rfl : k = 0 := by omega
    exact ⟨[], m, .refl m⟩
  | @head m m' first n es hs hr _ ih =>
    cases k with
    | zero => exact ⟨[], m, .refl m⟩
    | succ k =>
      obtain ⟨es', m'', h'⟩ := ih (Nat.le_of_succ_le_succ hk)
      exact ⟨first.events ++ es', m'', .head hs hr h'⟩

theorem Proceeds.keeps {P : Machine σ → Prop}
    (hstep : ∀ m step, P m → m.step = .ok step → P step.machine) {m m' : Machine σ} {n : Nat}
    {es : List Event} (h : m.Proceeds n es m') (hm : P m) : P m' := by
  induction h with
  | refl m => exact hm
  | head hs _ _ ih => exact ih (hstep _ _ hm hs)

/-! ## The ends of a run -/

/-- The ways in which a run of at most `max` steps ends. -/
inductive Runs (m : Machine σ) (max : Nat) : Run σ → Prop
  | halted {k : Nat} {es : List Event} {m' : Machine σ} {last : Step σ} (hk : k < max)
      (hp : m.Proceeds k es m') (hs : m'.step = .ok last) (hr : last.result = .ok .halted) :
      Runs m max
        { result := .ok (.halted (k + 1)), machine := last.machine,
          events := (es ++ last.events).toArray.push (.halted (k + 1) last.machine.pc) }
  | failed {k : Nat} {es : List Event} {m' : Machine σ} {last : Step σ} {e : ExecutionError}
      (hk : k < max) (hp : m.Proceeds k es m') (hs : m'.step = .ok last)
      (hr : last.result = .error e) :
      Runs m max
        { result := .error e, machine := last.machine, events := (es ++ last.events).toArray }
  | limited {es : List Event} {m' : Machine σ} (hp : m.Proceeds max es m') :
      Runs m max
        { result := .ok (.limitReached max), machine := m',
          events := es.toArray.push (.limitReached max) }

/-- Where a run of at most `max` steps breaks a contract: in one of its steps. -/
def RunMisuses (m : Machine σ) (max : Nat) (cause : Misuse) : Prop :=
  ∃ k es m', k < max ∧ m.Proceeds k es m' ∧ m'.step = .error cause

variable {m m' : Machine σ} {max : Nat} {run : Run σ}

theorem runs_or_misuses (m : Machine σ) (max : Nat) :
    (∃ run, m.Runs max run) ∨ ∃ cause, m.RunMisuses max cause := by
  induction max with
  | zero => exact .inl ⟨_, .limited (.refl m)⟩
  | succ max ih =>
    obtain ⟨run, h⟩ | ⟨cause, k, es, m', hk, hp, hs⟩ := ih
    · cases h with
      | halted hk hp hs hr => exact .inl ⟨_, .halted (by omega) hp hs hr⟩
      | failed hk hp hs hr => exact .inl ⟨_, .failed (by omega) hp hs hr⟩
      | @limited es m' hp =>
        cases hs : m'.step with
        | error cause => exact .inr ⟨cause, max, es, m', by omega, hp, hs⟩
        | ok last =>
          cases hr : last.result with
          | error e => exact .inl ⟨_, .failed (by omega) hp hs hr⟩
          | ok outcome =>
            cases outcome with
            | proceed => exact .inl ⟨_, .limited (hp.tail hs hr)⟩
            | halted => exact .inl ⟨_, .halted (by omega) hp hs hr⟩
    · exact .inr ⟨cause, k, es, m', by omega, hp, hs⟩

/-! ## The loop -/

theorem iterateFrom_proceeds {k : Nat} {es : List Event} (h : m.Proceeds k es m') (steps : Nat)
    (events : Array Event) (n : Nat) :
    iterateFrom steps events (k + n) m = iterateFrom (steps + k) (events ++ es) n m' := by
  induction h generalizing steps events with
  | refl m => simp
  | @head m m' first k es hs hr _ ih =>
    have hevents : events ++ first.events ++ es = events ++ (first.events ++ es) := by
      apply Array.toList_inj.1
      simp
    rw [Nat.add_right_comm, iterateFrom, hs]
    simp only [bind, Except.bind, hr]
    rw [ih, hevents, Nat.add_assoc steps 1 k, Nat.add_comm 1 k]

theorem iterate_proceeds {k : Nat} {es : List Event} (h : m.Proceeds k es m') (n : Nat) :
    m.iterate (k + n) = iterateFrom k es.toArray n m' := by
  rw [iterate, iterateFrom_proceeds h]
  simp

/-- The last step of a run does not leave the loop at its limit, so there is a step to spare. -/
theorem iterate_last {k : Nat} {es : List Event} (h : m.Proceeds k es m') (hk : k < max) :
    ∃ n, m.iterate max = iterateFrom k es.toArray (n + 1) m' := by
  obtain ⟨n, rfl⟩ : ∃ n, max = k + (n + 1) := ⟨max - k - 1, by omega⟩
  exact ⟨n, iterate_proceeds h (n + 1)⟩

theorem Runs.runLimit_eq (h : m.Runs max run) : m.runLimit max = .ok run := by
  unfold runLimit
  cases h with
  | halted hk hp hs hr =>
    obtain ⟨n, hn⟩ := iterate_last hp hk
    rw [hn, iterateFrom, hs]
    simp only [bind, Except.bind, hr, pure, Except.pure, Trace.toRun]
    simp
  | failed hk hp hs hr =>
    obtain ⟨n, hn⟩ := iterate_last hp hk
    rw [hn, iterateFrom, hs]
    simp only [bind, Except.bind, hr, pure, Except.pure, Trace.toRun]
    simp
  | limited hp =>
    have hn := iterate_proceeds hp 0
    rw [Nat.add_zero] at hn
    rw [hn]
    rfl

theorem runLimit_eq_error {cause : Misuse} (h : m.RunMisuses max cause) :
    m.runLimit max = .error cause := by
  obtain ⟨k, es, m', hk, hp, hs⟩ := h
  obtain ⟨n, hn⟩ := iterate_last hp hk
  rw [runLimit, hn, iterateFrom, hs]
  rfl

theorem runLimit_eq_ok_iff : m.runLimit max = .ok run ↔ m.Runs max run := by
  refine ⟨fun h => ?_, Runs.runLimit_eq⟩
  obtain ⟨run', h'⟩ | ⟨cause, h'⟩ := runs_or_misuses m max
  · rw [h'.runLimit_eq] at h
    cases h
    exact h'
  · rw [runLimit_eq_error h'] at h
    cases h

theorem runLimit_eq_error_iff {cause : Misuse} :
    m.runLimit max = .error cause ↔ m.RunMisuses max cause := by
  refine ⟨fun h => ?_, runLimit_eq_error⟩
  obtain ⟨run', h'⟩ | ⟨cause', h'⟩ := runs_or_misuses m max
  · rw [h'.runLimit_eq] at h
    cases h
  · rw [runLimit_eq_error h'] at h
    cases h
    exact h'

theorem Runs.keeps {P : Machine σ → Prop}
    (hstep : ∀ m step, P m → m.step = .ok step → P step.machine) (h : m.Runs max run)
    (hm : P m) : P run.machine := by
  cases h with
  | halted _ hp hs _ | failed _ hp hs _ => exact hstep _ _ (hp.keeps hstep hm) hs
  | limited hp => exact hp.keeps hstep hm

/-! ## Limits -/

theorem Runs.steps_le {n : Nat} (h : m.Runs max run)
    (hn : run.result = .ok (.halted n) ∨ run.result = .ok (.limitReached n)) : n ≤ max := by
  cases h with
  | halted hk =>
    obtain hn | hn := hn
    · cases hn
      exact hk
    · cases hn
  | failed =>
    obtain hn | hn := hn
    all_goals cases hn
  | limited =>
    obtain hn | hn := hn
    · cases hn
    · cases hn
      exact Nat.le_refl _

/-- A run that ended by itself makes some number of steps; a limit cuts it iff it is smaller. -/
theorem Runs.exists_steps (h : m.Runs max run) (hf : run.Finished) :
    ∃ k ≤ max, (∀ limit, k ≤ limit → m.Runs limit run) ∧
      ∀ limit < k, ∃ cut, m.Runs limit cut ∧ cut.result = .ok (.limitReached limit) := by
  have hcut : ∀ {k es m'}, m.Proceeds k es m' → ∀ limit < k + 1,
      ∃ cut, m.Runs limit cut ∧ cut.result = .ok (.limitReached limit) := by
    intro k es m' hp limit hlimit
    obtain ⟨es', m'', hp'⟩ := hp.take (Nat.le_of_lt_succ hlimit)
    exact ⟨_, .limited hp', rfl⟩
  cases h with
  | halted hk hp hs hr => exact ⟨_, hk, fun limit hl => .halted hl hp hs hr, hcut hp⟩
  | failed hk hp hs hr => exact ⟨_, hk, fun limit hl => .failed hl hp hs hr, hcut hp⟩
  | limited hp => exact absurd rfl (hf max)

theorem run_eq_some_iff : m.run max = .ok (some run) ↔ m.runLimit max = .ok run ∧ run.Finished := by
  unfold Machine.run runLimit
  cases m.iterate max with
  | error cause => simp [bind, Except.bind]
  | ok t =>
    obtain ⟨ending, steps, machine, events⟩ := t
    constructor
    · intro h
      cases ending with
      | unfinished => cases h
      | halted | failed e =>
        cases h
        exact ⟨rfl, fun n hn => nomatch hn⟩
    · rintro ⟨h, hf⟩
      cases h
      cases ending with
      | unfinished => exact absurd rfl (hf steps)
      | halted | failed e => rfl

/-- A step that fails ends all runs that get there, and they are the same. -/
theorem Proceeds.exists_failed {k : Nat} {es : List Event} {last : Step σ} {e : ExecutionError}
    (h : m.Proceeds k es m') (hs : m'.step = .ok last) (hr : last.result = .error e) :
    ∃ run, run.result = .error e ∧ run.machine = last.machine ∧
      ∀ max, k < max → m.runLimit max = .ok run ∧ m.run max = .ok (some run) := by
  let run : Run σ :=
    { result := .error e, machine := last.machine, events := (es ++ last.events).toArray }
  refine ⟨run, rfl, rfl, fun max hk => ?_⟩
  have hrun : m.runLimit max = .ok run := (Runs.failed hk h hs hr).runLimit_eq
  exact ⟨hrun, run_eq_some_iff.2 ⟨hrun, fun steps hn => nomatch hn⟩⟩

/-! ## Parts of a run -/

/-- What is left of a run after `a` steps is a run of its own, with its steps counted from there. -/
theorem Proceeds.runLimit_add {a : Nat} {es : List Event} (h : m.Proceeds a es m') (b : Nat) :
    (m.runLimit (a + b)).map (fun run => (run.result, run.machine)) =
      (m'.runLimit b).map fun run => (run.result.map (.after a), run.machine) := by
  obtain ⟨run, hrun⟩ | ⟨cause, k, es', m'', hk, hp, hs⟩ := runs_or_misuses m' b
  · rw [hrun.runLimit_eq]
    cases hrun with
    | halted hk hp hs hr =>
      rw [(Runs.halted (by omega) (h.trans hp) hs hr).runLimit_eq]
      rfl
    | failed hk hp hs hr =>
      rw [(Runs.failed (by omega) (h.trans hp) hs hr).runLimit_eq]
      rfl
    | limited hp =>
      rw [(Runs.limited (h.trans hp)).runLimit_eq]
      rfl
  · rw [runLimit_eq_error ⟨k, es', m'', hk, hp, hs⟩,
      runLimit_eq_error ⟨a + k, es ++ es', m'', by omega, h.trans hp, hs⟩]
    rfl

theorem Runs.proceeds {n : Nat} (h : m.Runs max run) (hn : run.result = .ok (.limitReached n)) :
    ∃ es, m.Proceeds max es run.machine := by
  cases h with
  | halted | failed => cases hn
  | limited hp => exact ⟨_, hp⟩

/-- A run with a limit returns unless a service breaks a contract, and it ends with the first step
that halts or fails, counted from 1, or at its limit; after a failing step PC is at the
instruction that failed. A run can be cut into parts at any place, and a run without a limit is
the run with any limit that it does not reach. -/
theorem runLimit_iterates (m : Machine σ) :
    (∀ max run, m.runLimit max = .ok run ↔ m.Runs max run) ∧
      (∀ max, (∃ run, m.runLimit max = .ok run) ∨
        ∃ cause, m.runLimit max = .error cause ∧ m.RunMisuses max cause) ∧
      (∀ (m' : Machine σ) last e, m'.step = .ok last → last.result = .error e →
        last.machine.pc = m'.pc) ∧
      (∀ max run n, m.runLimit max = .ok run →
        run.result = .ok (.halted n) ∨ run.result = .ok (.limitReached n) → n ≤ max) ∧
      m.runLimit 0 =
        .ok { result := .ok (.limitReached 0), machine := m, events := #[.limitReached 0] } ∧
      (∀ a b first, m.runLimit a = .ok first → first.result = .ok (.limitReached a) →
        (m.runLimit (a + b)).map (fun run => (run.result, run.machine)) =
          (first.machine.runLimit b).map fun run => (run.result.map (.after a), run.machine)) ∧
      (∀ fuel run, m.run fuel = .ok (some run) →
        ∃ k ≤ fuel, (∀ max, k ≤ max → m.runLimit max = .ok run) ∧
          ∀ max < k, ∃ cut, m.runLimit max = .ok cut ∧ cut.result = .ok (.limitReached max)) ∧
      ∀ max run, m.runLimit max = .ok run → run.Finished →
        ∀ fuel, max ≤ fuel → m.run fuel = .ok (some run) := by
  refine ⟨fun max run => runLimit_eq_ok_iff, fun max => ?_, fun m' last e hs he => ?_,
    fun max run n h hn => (runLimit_eq_ok_iff.1 h).steps_le hn, rfl, fun a b first h hn => ?_,
    fun fuel run h => ?_, fun max run h hf fuel hle => ?_⟩
  · obtain ⟨run, h⟩ | ⟨cause, h⟩ := runs_or_misuses m max
    · exact .inl ⟨run, h.runLimit_eq⟩
    · exact .inr ⟨cause, runLimit_eq_error h, h⟩
  · exact congrArg RegisterFile.pc ((execute_eq_ok_iff.1 hs).regs_eq_of_error he)
  · obtain ⟨es, hp⟩ := (runLimit_eq_ok_iff.1 h).proceeds hn
    exact hp.runLimit_add b
  · obtain ⟨hrun, hf⟩ := run_eq_some_iff.1 h
    obtain ⟨k, hk, hge, hlt⟩ := (runLimit_eq_ok_iff.1 hrun).exists_steps hf
    refine ⟨k, hk, fun max hmax => (hge max hmax).runLimit_eq, fun max hmax => ?_⟩
    obtain ⟨cut, hcut, hres⟩ := hlt max hmax
    exact ⟨cut, hcut.runLimit_eq, hres⟩
  · obtain ⟨k, hk, hge, -⟩ := (runLimit_eq_ok_iff.1 h).exists_steps hf
    exact run_eq_some_iff.2 ⟨(hge fuel (Nat.le_trans hk hle)).runLimit_eq, hf⟩

/-- The ST at 0x3000 puts R0, the word of the halting TRAP, into the cell that is executed next. -/
def overwriting : Machine (TrapTable ScriptedRoutine) where
  state :=
    { regs := { general := #v[0xF025, 0, 0, 0, 0, 0, 0, 0], pc := 0x3000, condition := .zero }
      mem := Memory.zeroed.write 0x3000 0x3000 }
  handler := .withHalt

/-- The machine after the ST. -/
def overwritten : Machine (TrapTable ScriptedRoutine) where
  state := { regs := overwriting.state.fetched, mem := overwriting.state.mem.write 0x3001 0xF025 }
  handler := .withHalt

theorem overwriting_proceeds : ∃ es, overwriting.Proceeds 1 es overwritten := by
  have hfetch : overwriting.state.mem.read overwriting.pc = 0x3000 := Memory.read_write_self _ _ _
  have hd : Instruction.decode 0x3000 = .ok (some (.st 0 0)) := rfl
  have he : (Instruction.st 0 0).effect overwriting.state.fetched overwriting.state.mem =
      .ok { regs := overwriting.state.fetched, store := some (0x3001, 0xF025) } := rfl
  have hs := (Executes.performed (by decide) hd rfl he).execute_eq
  rw [← hfetch] at hs
  exact ⟨_, .head hs rfl (.refl _)⟩

theorem overwritten_halts : ∃ last, overwritten.step = .ok last ∧ last.result = .ok .halted := by
  have hfetch : overwritten.state.mem.read overwritten.pc = 0xF025 := Memory.read_write_self _ _ _
  have hd : Instruction.decode 0xF025 = .ok (some (.trap 0x25)) := rfl
  have hget : overwritten.handler.get? 0x25 = some .halt := TrapTable.get?_register _ _ _
  have hserve := TrapTable.invoke_registered (s := overwritten.state.entry) hget
  have hs := (Executes.served (by decide) hd hserve rfl).execute_eq
  rw [← hfetch] at hs
  exact ⟨_, hs, rfl⟩

/-- The stored halt is executed. It is the second step, a run of at most two steps reports it, and
a run of one step leaves it to the next run. -/
theorem runLimit_iterates_overwriting :
    (∃ run, overwriting.runLimit 2 = .ok run ∧ run.result = .ok (.halted 2) ∧
        overwriting.run 5 = .ok (some run)) ∧
      ∃ first, overwriting.runLimit 1 = .ok first ∧ first.result = .ok (.limitReached 1) ∧
        (overwriting.runLimit (1 + 1)).map (fun run => (run.result, run.machine)) =
          (first.machine.runLimit 1).map fun run => (run.result.map (.after 1), run.machine) := by
  obtain ⟨hruns, -, -, -, -, hparts, -, hfree⟩ := runLimit_iterates overwriting
  obtain ⟨es, hp⟩ := overwriting_proceeds
  obtain ⟨last, hs, hr⟩ := overwritten_halts
  have htwo := (hruns 2 _).2 (.halted (by decide) hp hs hr)
  have hone := (hruns 1 _).2 (.limited hp)
  refine ⟨⟨_, htwo, rfl, hfree 2 _ htwo ?_ 5 (by decide)⟩, _, hone, rfl, hparts 1 1 _ hone rfl⟩
  intro n hn
  cases hn

end Machine

end Lc3
