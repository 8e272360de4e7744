import Lc3.Proofs.Executions
import Lc3.Proofs.Refinement

/-! # The condition code is the sign of the last result

Seven instructions have a result: the word that they write into their destination register. Nothing
but the last of these results is kept in the condition code, however long ago it was written.

* `Reference.HasResult`, `Execution.result?`: the instructions with a result, and what one wrote.
* `Execution.KeepsCondition`: a service that succeeds leaves the condition code as it found it.
* `Command.results`: the results of a session since the machine was last reset.
* `Executes.condition_eq`, `Chain.condition_eq`: what one execution and what a chain of them does
  to the condition code.
* `condition_follows_results`: the condition code and the branches after any session.
-/

namespace Lc3
set_option autoImplicit false
open Reference

/-! ## Instructions with a result -/

namespace Reference

/-- ADD, AND, NOT, LD, LDI, LDR and LEA. -/
def HasResult (w : Word) : Prop :=
  bits w 12 4 ∈ [0x1, 0x5, 0x9, 0x2, 0xA, 0x6, 0xE]

instance (w : Word) : Decidable (HasResult w) :=
  inferInstanceAs (Decidable (_ ∈ _))

/-- Whether bit 11, 10 or 9 of a BR selects the sign of `v`. -/
def SelectsSign (w v : Word) : Prop :=
  (bits w 11 1 = 1 ∧ v.toInt < 0) ∨ (bits w 10 1 = 1 ∧ v.toInt = 0) ∨ (bits w 9 1 = 1 ∧ 0 < v.toInt)

/-- Their account is the same for all seven but for the value that is written. -/
theorem exists_next_eq_result {w : Word} (h : HasResult w) (c : Config) :
    ∃ v, next w c = c.advance.result (register w 9) v := by
  simp only [HasResult, List.mem_cons, List.not_mem_nil, or_false] at h
  rcases h with h | h | h | h | h | h | h
  all_goals
    simp only [next, h]
    exact ⟨_, rfl⟩

theorem cond_next_of_hasResult {w : Word} (h : HasResult w) (c : Config) :
    (next w c).cond = sign ((next w c).reg (register w 9)) := by
  obtain ⟨v, hv⟩ := exists_next_eq_result h c
  have hreg : (c.advance.result (register w 9) v).reg (register w 9) = v := Function.update_self _ _ _
  rw [hv, hreg]
  rfl

/-- The others keep the condition code, and all registers but the R7 of a call. -/
theorem next_of_not_hasResult {w : Word} (h : ¬HasResult w) (c : Config) :
    (next w c).cond = c.cond ∧ (bits w 12 4 ≠ 0x4 → (next w c).reg = c.reg) := by
  unfold HasResult at h
  unfold next
  split
  case h_1 => split <;> exact ⟨rfl, fun _ => rfl⟩
  case h_5 hop =>
    refine ⟨?_, fun hne => absurd hop hne⟩
    split <;> rfl
  case h_4 | h_8 | h_11 | h_12 | h_14 => exact ⟨rfl, fun _ => rfl⟩
  all_goals
    rename_i hop
    rw [hop] at h
    exact absurd h (by decide)

end Reference

/-! ## Results of executions -/

/-- What the instruction wrote into its destination register, if it is one with a result and
succeeded. -/
def Execution.result? {σ : Type} (e : Execution σ) : Option Word :=
  match e.step.result with
  | .ok _ =>
    if HasResult e.word then some (e.step.machine.state.regs.general.get (register e.word 9))
    else none
  | .error _ => none

/-- The service that the word calls, if it is a TRAP, leaves the condition code as it found it when
it succeeds. When it fails it may have done anything. -/
def Execution.KeepsCondition {σ : Type} [TrapHandler σ] (e : Execution σ) : Prop :=
  bits e.word 12 4 = 0xF → ∀ served verdict,
    TrapHandler.invoke (vector e.word) e.before.handler e.before.state.entry = .ok served →
      served.reply = .ok verdict →
        served.state.regs.condition = e.before.state.entry.regs.condition

/-- The results since the last reset after a command, the latest last, if those before it were
`earlier`. -/
def Command.resultsAfter {σ : Type} [TrapHandler σ] (fuel : Nat) (m : Machine σ)
    (earlier : List Word) (command : Command) : List Word :=
  match command with
  | reset => []
  | _ => earlier ++ (command.executions fuel m).filterMap Execution.result?

/-- The results since the last reset after a series of commands. -/
def Command.results {σ : Type} [TrapHandler σ] (fuel : Nat) :
    List Command → Machine σ → List Word → List Word
  | [], _, earlier => earlier
  | command :: commands, m, earlier =>
    match command.perform fuel m with
    | .ok (some performed) =>
      results fuel commands performed.machine (command.resultsAfter fuel m earlier)
    | _ => earlier

namespace Machine
variable {σ : Type} [TrapHandler σ] {m m' : Machine σ} {word : Word} {step : Step σ}

theorem Executes.eq_of_executes {step' : Step σ} (h : m.Executes word step)
    (h' : m.Executes word step') : step = step' := by
  have heq := h.execute_eq.symm.trans h'.execute_eq
  cases heq
  rfl

/-- An instruction other than TRAP that succeeds has an address, if it forms one, and leaves the
configuration of its account. -/
theorem Executes.next_of_ok (h : m.Executes word step) (hne : bits word 12 4 ≠ 0xF)
    {outcome : Outcome} (hr : step.result = .ok outcome) :
    (∀ x ∈ target word m.state.config, InSpace x) ∧
      step.machine.state.config = next word m.state.config := by
  cases h with
  | lastAddress | illegal | rejected | refused => cases hr
  | served hpc hd hs hr' => exact absurd ((decode_eq_trap_iff word).1 hd).1 hne
  | performed hpc hd hv he =>
    have hop := opcode_of_vector?_none word hd hv
    obtain ⟨step', h', -, ⟨hin, -, hc⟩ | ⟨x, -, -, hr', -⟩⟩ := executes_plain hpc hop
    · rw [(Executes.performed hpc hd hv he).eq_of_executes h']
      exact ⟨hin, hc⟩
    · cases (Executes.performed hpc hd hv he).eq_of_executes h'
      cases hr'

theorem Executes.condition_eq (h : m.Executes word step)
    (hk : Execution.KeepsCondition { before := m, word, step }) :
    step.machine.state.regs.condition =
      match Execution.result? { before := m, word, step } with
      | some v => .ofWord v
      | none => m.state.regs.condition := by
  unfold Execution.result?
  cases h with
  | lastAddress | illegal | rejected | refused => rfl
  | served hpc hd hs hr =>
    obtain ⟨hop, rfl⟩ := (decode_eq_trap_iff word).1 hd
    have hno : ¬HasResult word := by
      unfold HasResult
      rw [hop]
      decide
    simp only [if_neg hno]
    exact hk hop _ _ hs hr
  | @performed i eff hpc hd hv he =>
    have hop := opcode_of_vector?_none word hd hv
    obtain ⟨-, hc⟩ := (Executes.performed hpc hd hv he).next_of_ok hop.2.2 rfl
    have hcond := congrArg Config.cond hc
    by_cases hres : HasResult word
    · simp only [if_pos hres]
      rw [cond_next_of_hasResult hres, ← hc] at hcond
      exact hcond.trans (ofWord_eq_sign _).symm
    · simp only [if_neg hres]
      exact hcond.trans (next_of_not_hasResult hres _).1

theorem Chain.condition_eq {es : List (Execution σ)} (h : m.Chain es m')
    (hk : ∀ e ∈ es, e.KeepsCondition) {earlier : List Word}
    (hm : m.state.regs.condition = .ofWord (earlier.getLastD 0)) :
    m'.state.regs.condition =
      .ofWord ((earlier ++ es.filterMap Execution.result?).getLastD 0) := by
  induction h generalizing earlier with
  | nil m =>
    rw [List.filterMap_nil, List.append_nil]
    exact hm
  | @cons m m' word step es hs _ ih =>
    rw [List.forall_mem_cons] at hk
    have hstep := hs.condition_eq hk.1
    cases hres : Execution.result? { before := m, word, step } with
    | none =>
      rw [hres] at hstep
      rw [List.filterMap_cons_none hres]
      exact ih hk.2 (hstep.trans hm)
    | some v =>
      rw [hres] at hstep
      have hlast : (earlier ++ [v]).getLastD 0 = v := List.getLastD_concat
      rw [List.filterMap_cons_some hres, List.append_cons]
      refine ih hk.2 (hstep.trans ?_)
      rw [hlast]

omit [TrapHandler σ] in
theorem Sets.condition_eq {command : Command} (h : m.Sets command m') (hne : command ≠ .reset) :
    m'.state.regs.condition = m.state.regs.condition := by
  cases h with
  | reset => exact absurd rfl hne
  | setPc | load | loadRefused | image | imageRefused | edit | editRefused => rfl
  | setRegister hw =>
    unfold RegisterFile.write at hw
    split at hw
    · cases hw
      rfl
    · cases hw

end Machine

/-! ## Sessions -/

namespace Command
variable {σ : Type} [TrapHandler σ] {m m' : Machine σ} {fuel : Nat} {earlier : List Word}

theorem resultsAfter_of_ne {command : Command} (h : command ≠ .reset) :
    command.resultsAfter fuel m earlier =
      earlier ++ (command.executions fuel m).filterMap Execution.result? := by
  cases command with
  | reset => exact absurd rfl h
  | _ => rfl

theorem condition_perform {command : Command} {performed : Performed σ}
    (h : command.perform fuel m = .ok (some performed))
    (hk : ∀ e ∈ command.executions fuel m, e.KeepsCondition)
    (hm : m.state.regs.condition = .ofWord (earlier.getLastD 0)) :
    performed.machine.state.regs.condition =
      .ofWord ((command.resultsAfter fuel m earlier).getLastD 0) := by
  rcases perform_cases h with ⟨hx, hchain⟩ | ⟨hsets, hnone⟩
  · have hne : command ≠ .reset := by
      rintro rfl
      exact hx
    rw [resultsAfter_of_ne hne]
    exact hchain.condition_eq hk hm
  · by_cases hr : command = .reset
    · subst hr
      cases h
      rfl
    · rw [resultsAfter_of_ne hr, hnone, List.filterMap_nil, List.append_nil]
      exact (hsets.condition_eq hr).trans hm

theorem condition_performAll {commands : List Command}
    (h : performAll fuel commands m = .ok (some m'))
    (hk : ∀ e ∈ executionsAll fuel commands m, e.KeepsCondition)
    (hm : m.state.regs.condition = .ofWord (earlier.getLastD 0)) :
    m'.state.regs.condition = .ofWord ((results fuel commands m earlier).getLastD 0) := by
  induction commands generalizing m earlier with
  | nil =>
    cases h
    exact hm
  | cons command commands ih =>
    obtain ⟨performed, hp, hrest, hall⟩ := performAll_cons h
    rw [hall, List.forall_mem_append] at hk
    simp only [results, hp]
    exact ih hrest hk.2 (condition_perform hp hk.1 hm)

end Command

/-! ## Branches -/

namespace Machine
variable {σ : Type}

/-- The machine is new, or it has just been reset. -/
def Fresh (m : Machine σ) : Prop :=
  (∃ handler, m = withHandler handler) ∨ ∃ m₀ : Machine σ, m = m₀.reset

theorem Fresh.condition_eq {m : Machine σ} (hm : m.Fresh) :
    m.state.regs.condition = .ofWord (([] : List Word).getLastD 0) := by
  obtain ⟨handler, rfl⟩ | ⟨m₀, rfl⟩ := hm
  · rfl
  · rfl

variable [TrapHandler σ] {m : Machine σ}

omit [TrapHandler σ] in
theorem selects_iff {v : Word} (hm : m.state.regs.condition = .ofWord v) (word : Word) :
    selects word m.state.config = true ↔ SelectsSign word v := by
  have hfetched : m.state.fetched.condition = .ofWord v := hm
  rw [← selectedBy_eq_selects, hfetched, Condition.selectedBy_ofWord, getLsbD_eq_bits,
    getLsbD_eq_bits, getLsbD_eq_bits]
  simp only [decide_eq_true_eq]
  rfl

/-- What a BR does on a condition code that is the sign of `v`. -/
theorem execute_br {v word : Word} (hm : m.state.regs.condition = .ofWord v) (hpc : m.pc ≠ 0xFFFF)
    (hop : bits word 12 4 = 0x0) :
    ∃ step, m.execute word = .ok step ∧
      (SelectsSign word v → InSpace (pcRelative word 9 m.state.config) →
        step.result = .ok .proceed ∧
          step.machine.state.config = m.state.config.goto (pcRelative word 9 m.state.config).toNat) ∧
      (SelectsSign word v → ¬InSpace (pcRelative word 9 m.state.config) →
        step.result = .error (.addressOutOfRange (pcRelative word 9 m.state.config)) ∧
          step.machine = m) ∧
      (¬SelectsSign word v →
        step.result = .ok .proceed ∧ step.machine.state.config = m.state.config.advance) := by
  have hsel := selects_iff hm word
  obtain ⟨step, hs, -, hend⟩ := executes_plain hpc (by omega : bits word 12 4 ≠ 0x8 ∧ _)
  refine ⟨step, hs.execute_eq, ?_⟩
  simp only [target, next, hop] at hend
  by_cases hv : SelectsSign word v
  · simp only [if_pos (hsel.2 hv), Option.mem_some_iff, forall_eq', exists_eq_left'] at hend
    refine ⟨fun _ hin => ?_, fun _ hout => ?_, fun hn => absurd hv hn⟩
    · exact (hend.resolve_right fun h => h.1 hin).2
    · exact (hend.resolve_left fun h => hout h.1).2
  · have hno : ¬selects word m.state.config = true := fun h => hv (hsel.1 h)
    simp only [if_neg hno] at hend
    refine ⟨fun h => absurd h hv, fun h => absurd h hv, fun _ => ?_⟩
    rcases hend with ⟨-, hend⟩ | ⟨x, hx, -⟩
    · exact hend
    · cases hx

/-- At every moment of a session with a new or reset machine the condition code is the sign of the
last result since then, or of 0 if there was none, as long as services that succeed leave it alone.
So it is that result which decides a BR. No other instruction and no command but a reset changes
the condition code, and no failure does. -/
theorem condition_follows_results (m : Machine σ) (hm : m.Fresh) (fuel : Nat)
    (commands : List Command) (m' : Machine σ)
    (h : Command.performAll fuel commands m = .ok (some m'))
    (hk : ∀ e ∈ Command.executionsAll fuel commands m, e.KeepsCondition) :
    let last := (Command.results fuel commands m []).getLastD 0
    m'.state.regs.condition = sign last.toNat ∧
      (∀ word, m'.pc ≠ 0xFFFF → bits word 12 4 = 0x0 →
        ∃ step, m'.execute word = .ok step ∧
          (SelectsSign word last → InSpace (pcRelative word 9 m'.state.config) →
            step.result = .ok .proceed ∧ step.machine.state.config =
              m'.state.config.goto (pcRelative word 9 m'.state.config).toNat) ∧
          (SelectsSign word last → ¬InSpace (pcRelative word 9 m'.state.config) →
            step.result = .error (.addressOutOfRange (pcRelative word 9 m'.state.config)) ∧
              step.machine = m') ∧
          (¬SelectsSign word last →
            step.result = .ok .proceed ∧ step.machine.state.config = m'.state.config.advance)) ∧
      (∀ (m₁ : Machine σ) word step, m₁.execute word = .ok step →
        Execution.KeepsCondition { before := m₁, word, step } →
        Execution.result? { before := m₁, word, step } = none →
          step.machine.state.regs.condition = m₁.state.regs.condition) ∧
      ∀ (m₁ : Machine σ) (command : Command) performed,
        command.perform fuel m₁ = .ok (some performed) → ¬command.Executing → command ≠ .reset →
          performed.machine.state.regs.condition = m₁.state.regs.condition := by
  have hlast := Command.condition_performAll h hk hm.condition_eq
  refine ⟨hlast.trans (ofWord_eq_sign _), fun word hpc hop => execute_br hlast hpc hop,
    fun m₁ word step hs hkeeps hnone => ?_, fun m₁ command performed hp hx hr => ?_⟩
  · have hcond := (execute_eq_ok_iff.1 hs).condition_eq hkeeps
    rw [hnone] at hcond
    exact hcond
  · obtain ⟨hexec, -⟩ | ⟨hsets, -⟩ := Command.perform_cases hp
    · exact absurd hexec hx
    · exact hsets.condition_eq hr

/-- A routine that makes the condition code positive and then fails. -/
def upset : ScriptedRoutine where
  actions := [.add 0 0 1]
  reply := .error .failed

/-- A new machine on which vector 0x30 calls `upset`. -/
def steady : Machine (TrapTable ScriptedRoutine) :=
  withHandler (TrapTable.empty.register 0x30 (.routine upset))

/-- ADD writes -1 to R1, R1 is set to 5 from outside, and the TRAP fails. -/
def upsetting : List Command :=
  [.execute 0x127F, .setRegister 1 5, .execute 0xF030]

theorem steady_performs : ∃ m', Command.performAll 0 upsetting steady = .ok (some m') ∧
    Command.results 0 upsetting steady [] = [0xFFFF] ∧ m'.pc = 1 :=
  ⟨_, rfl, rfl, rfl⟩

/-- The machine that the TRAP finds. -/
def settled : Machine (TrapTable ScriptedRoutine) where
  state :=
    { regs := { general := steady.state.regs.general.set 1 5, pc := 1, condition := .negative }
      mem := .zeroed }
  handler := steady.handler

theorem steady_executions : ∃ first last, Command.executionsAll 0 upsetting steady =
    [{ before := steady, word := 0x127F, step := first },
      { before := settled, word := 0xF030, step := last }] :=
  ⟨_, _, rfl⟩

theorem settled_fails {s : State} {served : Served (TrapTable ScriptedRoutine)}
    (hs : TrapHandler.invoke (vector 0xF030) settled.handler s = .ok served) :
    served.reply = .error .failed := by
  have hget : settled.handler.get? (vector 0xF030) = some (.routine upset) :=
    TrapTable.get?_register _ _ _
  rw [TrapTable.invoke_registered hget] at hs
  cases hs
  rfl

theorem steady_keeps : ∀ e ∈ Command.executionsAll 0 upsetting steady, e.KeepsCondition := by
  obtain ⟨first, last, hes⟩ := steady_executions
  rw [hes]
  refine List.forall_mem_cons.2 ⟨fun hop => ?_, List.forall_mem_singleton.2 ?_⟩
  · have hadd : bits 0x127F 12 4 ≠ 0xF := by decide
    exact absurd hop hadd
  · intro _ served verdict hs hr
    simp only at hs
    rw [settled_fails hs] at hr
    cases hr

/-- The condition code is still the sign of -1, and a BR on negative is taken. -/
theorem condition_follows_results_steady :
    steady.Fresh ∧ (∀ e ∈ Command.executionsAll 0 upsetting steady, e.KeepsCondition) ∧
      ∃ m', Command.performAll 0 upsetting steady = .ok (some m') ∧
        m'.state.regs.condition = .negative ∧
        ∃ step, m'.execute 0x0802 = .ok step ∧ step.result = .ok .proceed ∧
          step.machine.pc = 4 := by
  have hfresh : steady.Fresh := .inl ⟨_, rfl⟩
  obtain ⟨m', hall, hresults, hpc⟩ := steady_performs
  obtain ⟨hcond, hbr, -⟩ :=
    condition_follows_results steady hfresh 0 upsetting m' hall steady_keeps
  rw [hresults] at hcond hbr
  have hnext : m'.pc ≠ 0xFFFF := by
    rw [hpc]
    decide
  have htarget : pcRelative 0x0802 9 m'.state.config = 4 := by
    have hat : m'.state.config.pc = 1 := congrArg BitVec.toNat hpc
    rw [pcRelative, hat]
    rfl
  have hselects : SelectsSign 0x0802 0xFFFF := .inl ⟨rfl, by decide⟩
  obtain ⟨step, hs, htaken, -⟩ := hbr 0x0802 hnext rfl
  rw [htarget] at htaken
  obtain ⟨hr, hc⟩ := htaken hselects (by decide)
  refine ⟨hfresh, steady_keeps, m', hall, hcond, step, hs, hr, BitVec.eq_of_toNat_eq ?_⟩
  exact congrArg Config.pc hc

end Machine

end Lc3
