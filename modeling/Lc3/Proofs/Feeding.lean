import Lc3.Proofs.Loading
import Lc3.Proofs.Reporting

/-! # Words that are fed and words that are loaded

A word can be executed without standing in memory. A program whose instructions neither jump nor
call a service runs the same if its words are fed to the machine one by one, and if they are loaded
and the machine steps through them, as long as it does not look at the cells in which they would
stand: these are the only difference between the two machines.

* `Reference.Straight`, `Reference.accesses`: instructions that do not jump, and the cells that an
  instruction reads or writes.
* `Config.AgreesOff`: two configurations are the same apart from some cells.
* `next_cases`: instructions that leave those cells alone do the same in both.
* `Machine.feeding`: the executions of words that are fed.
* `SameOff.executes`: the step of both machines. `SameOff.executions`: their runs.
* `feeding_agrees_with_loading`: a program that is loaded, and its words one by one.
-/

namespace Lc3
set_option autoImplicit false
open Reference

/-! ## Instructions one after another -/

namespace Reference

/-- The word is none of BR, JSR, JSRR, JMP and TRAP. It need not be an instruction. -/
def Straight (w : Word) : Prop :=
  bits w 12 4 ∉ [0x0, 0x4, 0xC, 0xF]

instance (w : Word) : Decidable (Straight w) :=
  inferInstanceAs (Decidable (_ ∉ _))

/-- The cells that an instruction reads or writes: those of its address, and for LDI and STI also
those that are pointed to. -/
def accesses (w : Word) (c : Config) : List Nat :=
  match bits w 12 4 with
  | 0x2 | 0x3 => [(pcRelative w 9 c).toNat]
  | 0x6 | 0x7 => [(baseRelative w c).toNat]
  | 0xA | 0xB => [(pcRelative w 9 c).toNat, c.mem (pcRelative w 9 c).toNat]
  | _ => []

/-- The two configurations differ at most in the cells of `block`. -/
structure Config.AgreesOff (block : Nat → Prop) (c d : Config) : Prop where
  reg : c.reg = d.reg
  pc : c.pc = d.pc
  cond : c.cond = d.cond
  mem : ∀ a, ¬block a → c.mem a = d.mem a

variable {block : Nat → Prop} {c d : Config} {w : Word}

theorem Config.AgreesOff.target_eq (h : c.AgreesOff block d) : target w c = target w d := by
  obtain ⟨reg, pc, cond, mem⟩ := c
  obtain ⟨rfl, rfl, rfl, -⟩ := h
  rfl

theorem Config.AgreesOff.advance (h : c.AgreesOff block d) : c.advance.AgreesOff block d.advance where
  reg := h.reg
  pc := congrArg (· + 1) h.pc
  cond := h.cond
  mem := h.mem

theorem Config.AgreesOff.result (h : c.AgreesOff block d) (r : Fin 8) (v : Nat) :
    (c.result r v).AgreesOff block (d.result r v) where
  reg := congrArg (fun reg : Fin 8 → Nat => Function.update reg r v) h.reg
  pc := h.pc
  cond := rfl
  mem := h.mem

theorem Config.AgreesOff.store (h : c.AgreesOff block d) (a v : Nat) :
    (c.store a v).AgreesOff block (d.store a v) where
  reg := h.reg
  pc := h.pc
  cond := h.cond
  mem b hb := by
    by_cases hba : b = a
    · subst hba
      exact (Function.update_self b v c.mem).trans (Function.update_self b v d.mem).symm
    · exact (Function.update_of_ne hba v c.mem).trans
        ((h.mem b hb).trans (Function.update_of_ne hba v d.mem).symm)

/-- An instruction that does not jump writes a result or a cell, and goes on behind itself. If it
accesses nothing in `block`, it cannot tell the two configurations apart. -/
theorem next_cases (hw : Straight w) (hlegal : bits w 12 4 ≠ 0x8 ∧ bits w 12 4 ≠ 0xD)
    (h : c.AgreesOff block d) (hapart : ∀ a ∈ accesses w d, ¬block a) :
    (∃ r v, next w c = c.advance.result r v ∧ next w d = d.advance.result r v) ∨
      ∃ a v, ¬block a ∧ next w c = c.advance.store a v ∧ next w d = d.advance.store a v := by
  obtain ⟨reg, pc, cond, mem⟩ := c
  obtain ⟨rfl, rfl, rfl, hmem⟩ := h
  have hbound : bits w 12 4 < 2 ^ 4 := Nat.mod_lt _ (by decide)
  simp only [Straight, List.mem_cons, List.not_mem_nil, or_false] at hw
  have hop : (bits w 12 4 = 0x1 ∨ bits w 12 4 = 0x5 ∨ bits w 12 4 = 0x9 ∨ bits w 12 4 = 0xE) ∨
      bits w 12 4 = 0x2 ∨ bits w 12 4 = 0x6 ∨ bits w 12 4 = 0xA ∨
      bits w 12 4 = 0x3 ∨ bits w 12 4 = 0x7 ∨ bits w 12 4 = 0xB := by omega
  obtain hop | hop | hop | hop | hop | hop | hop := hop
  · left
    obtain hop | hop | hop | hop := hop
    all_goals
      simp only [next, hop]
      exact ⟨_, _, rfl, rfl⟩
  all_goals
    simp only [accesses, hop, List.forall_mem_cons] at hapart
    obtain ⟨haddress, hpointed⟩ := hapart
    have hread := hmem _ haddress
    simp only [next, hop]
  · exact .inl ⟨_, _, rfl, congrArg (d.advance.result _) hread.symm⟩
  · exact .inl ⟨_, _, rfl, congrArg (d.advance.result _) hread.symm⟩
  · have hread' := hmem _ hpointed.1
    refine .inl ⟨_, _, rfl, congrArg (d.advance.result _) ?_⟩
    rw [← hread', ← hread]
    rfl
  · exact .inr ⟨_, _, haddress, rfl, rfl⟩
  · exact .inr ⟨_, _, haddress, rfl, rfl⟩
  · refine .inr ⟨_, _, hpointed.1, ?_, rfl⟩
    rw [← hread]
    rfl

theorem Config.AgreesOff.next (hw : Straight w) (hlegal : bits w 12 4 ≠ 0x8 ∧ bits w 12 4 ≠ 0xD)
    (h : c.AgreesOff block d) (hapart : ∀ a ∈ accesses w d, ¬block a) :
    (next w c).AgreesOff block (next w d) ∧ (next w c).pc = c.pc + 1 ∧
      ∀ a, block a → (next w c).mem a = c.mem a := by
  obtain ⟨r, v, hc, hd⟩ | ⟨a, v, ha, hc, hd⟩ := next_cases hw hlegal h hapart
  · rw [hc, hd]
    exact ⟨h.advance.result r v, rfl, fun _ _ => rfl⟩
  · rw [hc, hd]
    refine ⟨h.advance.store a v, rfl, fun b hb => ?_⟩
    have hba : b ≠ a := fun e => ha (e ▸ hb)
    exact Function.update_of_ne hba v c.mem

/-- From PC on, the cells hold `words`, and they are cells of `block`. -/
def Config.Holds (block : Nat → Prop) (words : List Word) (c : Config) : Prop :=
  ∀ i, ∀ hi : i < words.length, block (c.pc + i) ∧ c.mem (c.pc + i) = words[i].toNat

theorem Config.Holds.tail {word : Word} {words : List Word} (h : c.Holds block (word :: words))
    (hpc : d.pc = c.pc + 1) (hmem : ∀ a, block a → d.mem a = c.mem a) : d.Holds block words := by
  intro i hi
  have hnext : d.pc + i = c.pc + (i + 1) := by omega
  obtain ⟨hblock, hword⟩ := h (i + 1) (Nat.succ_lt_succ hi)
  rw [hnext, hmem _ hblock]
  exact ⟨hblock, hword⟩

end Reference

theorem State.agreesOff_iff {block : Nat → Prop} {s t : State} :
    s.config.AgreesOff block t.config ↔
      s.regs = t.regs ∧ ∀ a : Word, ¬block a.toNat → s.mem.read a = t.mem.read a := by
  constructor
  · intro h
    have hconfig : ({ regs := s.regs, mem := t.mem } : State).config = t.config := by
      rw [config, config, Config.mk.injEq]
      exact ⟨h.reg, h.pc, h.cond, rfl⟩
    refine ⟨(config_eq_iff.1 hconfig).1, fun a ha => BitVec.eq_of_toNat_eq ?_⟩
    rw [← mem_config, ← mem_config]
    exact h.mem a.toNat ha
  · rintro ⟨hregs, hmem⟩
    obtain ⟨regs, mem⟩ := s
    cases hregs
    refine ⟨rfl, rfl, rfl, fun a ha => ?_⟩
    simp only [config]
    split
    · rename_i hlt
      have htoNat : (BitVec.ofNat 16 a).toNat = a :=
        (BitVec.toNat_ofNat a 16).trans (Nat.mod_eq_of_lt hlt)
      exact congrArg BitVec.toNat (hmem _ (htoNat.symm ▸ ha))
    · rfl

/-! ## Feeding -/

def Execution.account {σ : Type} (e : Execution σ) :
    Word × Except ExecutionError Outcome × List Event :=
  (e.word, e.step.result, e.step.events)

theorem Execution.results_eq_of_accounts {σ : Type} {es es' : List (Execution σ)}
    (h : es.map account = es'.map account) :
    es.map (·.step.result) = es'.map (·.step.result) := by
  have hresults := congrArg (List.map fun account => account.2.1) h
  rw [List.map_map, List.map_map] at hresults
  exact hresults

/-- The cells that the instruction has read or written. One that failed has got to none. -/
def Execution.accesses {σ : Type} (e : Execution σ) : List Nat :=
  match e.step.result with
  | .ok _ => Reference.accesses e.word e.before.state.config
  | .error _ => []

namespace Machine
variable {σ : Type} [TrapHandler σ]

/-- The executions of `words`, one after the other, up to the first that fails. -/
def feeding : List Word → Machine σ → List (Execution σ)
  | [], _ => []
  | word :: words, m =>
    match m.execute word with
    | .error _ => []
    | .ok step =>
      { before := m, word, step } ::
        match step.result with
        | .ok _ => feeding words step.machine
        | .error _ => []

variable {x y m : Machine σ} {word : Word} {words : List Word} {step : Step σ}

theorem feeding_proceed (h : m.Executes word step) {outcome : Outcome}
    (hr : step.result = .ok outcome) :
    m.feeding (word :: words) = { before := m, word, step } :: step.machine.feeding words := by
  simp only [feeding, h.execute_eq, hr]

theorem feeding_stop (h : m.Executes word step) {e : ExecutionError}
    (hr : step.result = .error e) :
    m.feeding (word :: words) = [{ before := m, word, step }] := by
  simp only [feeding, h.execute_eq, hr]

theorem mem_feeding (h : m.Executes word step) :
    { before := m, word, step } ∈ m.feeding (word :: words) := by
  cases hr : step.result with
  | ok outcome =>
    rw [feeding_proceed h hr]
    exact List.mem_cons_self
  | error e =>
    rw [feeding_stop h hr]
    exact List.mem_singleton_self _

/-! ## Two machines -/

/-- The two machines differ at most in the cells of `block`. -/
structure SameOff (block : Nat → Prop) (x y : Machine σ) : Prop where
  config : x.state.config.AgreesOff block y.state.config
  handler : x.handler = y.handler

variable {block : Nat → Prop}

omit [TrapHandler σ] in
theorem SameOff.pc_eq (h : x.SameOff block y) : x.pc = y.pc :=
  BitVec.eq_of_toNat_eq h.config.pc

/-- The same word does the same on both machines. If it succeeds, the cells of `block` are left as they
are, and the next word is taken from behind it. -/
theorem SameOff.executes (h : x.SameOff block y) (hw : Straight word)
    (hapart : ∀ step, y.Executes word step →
      ∀ a ∈ Execution.accesses { before := y, word, step }, ¬block a) :
    ∃ xs ys, x.Executes word xs ∧ y.Executes word ys ∧ xs.result = ys.result ∧
      xs.machine.SameOff block ys.machine ∧
      ((∃ e, ys.result = .error e) ∨
        ys.result = .ok .proceed ∧
          xs.machine.state.config.pc = x.state.config.pc + 1 ∧
          ∀ a, block a → xs.machine.state.config.mem a = x.state.config.mem a) := by
  have hpcs := h.pc_eq
  by_cases hpc : y.pc = 0xFFFF
  · exact ⟨_, _, .lastAddress (hpcs.trans hpc), .lastAddress hpc, rfl, h, .inl ⟨_, rfl⟩⟩
  by_cases hill : bits word 12 4 = 0x8 ∨ bits word 12 4 = 0xD
  · have hd := decode_eq_none word hill
    refine ⟨_, _, .illegal (hpcs ▸ hpc) hd, .illegal hpc hd, ?_, h, .inl ⟨_, rfl⟩⟩
    rw [hpcs]
  rw [not_or] at hill
  have htrap : bits word 12 4 ≠ 0xF := fun e => hw (by simp [e])
  have hop := And.intro hill.1 (And.intro hill.2 htrap)
  obtain ⟨xs, hxs, hxh, hx⟩ := executes_plain (hpcs ▸ hpc) hop
  obtain ⟨ys, hys, hyh, hy⟩ := executes_plain hpc hop
  have hhandler : xs.machine.handler = ys.machine.handler := hxh.trans (h.handler.trans hyh.symm)
  rw [h.config.target_eq] at hx
  obtain ⟨hin, hxr, hxc⟩ | ⟨a, ha, hout, hxr, hxm⟩ := hx
  · obtain ⟨-, hyr, hyc⟩ | ⟨a, ha, hout, -⟩ := hy
    · have haccesses := hapart ys hys
      simp only [Execution.accesses, hyr] at haccesses
      obtain ⟨hagrees, hnext, hblock⟩ := h.config.next hw hill haccesses
      rw [← hxc] at hagrees hnext hblock
      rw [← hyc] at hagrees
      exact ⟨xs, ys, hxs, hys, hxr.trans hyr.symm, ⟨hagrees, hhandler⟩, .inr ⟨hyr, hnext, hblock⟩⟩
    · exact absurd (hin a ha) hout
  · obtain ⟨hin, -⟩ | ⟨b, hb, -, hyr, hym⟩ := hy
    · exact absurd (hin a ha) hout
    · obtain rfl := Option.mem_unique ha hb
      refine ⟨xs, ys, hxs, hys, hxr.trans hyr.symm, ?_, .inl ⟨_, hyr⟩⟩
      rw [hxm, hym]
      exact h

/-- What an execution reports follows from its PC, its word and its result. -/
theorem SameOff.account_eq {xs ys : Step σ} (h : x.SameOff block y) (hx : x.Executes word xs)
    (hy : y.Executes word ys) (hr : xs.result = ys.result) :
    Execution.account { before := x, word, step := xs } =
      Execution.account { before := y, word, step := ys } := by
  have hevents : xs.events = ys.events := by
    rw [hx.events_eq, hy.events_eq, hr]
    simp only [report, failureReport, h.pc_eq]
  simp only [Execution.account, hr, hevents]

omit [TrapHandler σ] in
theorem fetch_of_holds (h : x.state.config.Holds block (word :: words)) : x.fetch = word := by
  obtain ⟨-, hword⟩ := h 0 (Nat.succ_pos _)
  refine BitVec.eq_of_toNat_eq (Eq.trans ?_ hword)
  exact (State.mem_config x.state x.pc).symm

/-- One machine steps through `words`, which are held by cells that the other machine, which is fed
with `words`, never accesses. -/
theorem SameOff.executions (h : x.SameOff block y) (hholds : x.state.config.Holds block words)
    (hstraight : ∀ w ∈ words, Straight w)
    (hapart : ∀ e ∈ y.feeding words, ∀ a ∈ e.accesses, ¬block a) :
    ∃ x' y' result, x.Chain (x.executions words.length) x' ∧ y.Chain (y.feeding words) y' ∧
      x'.SameOff block y' ∧
      (x.executions words.length).map Execution.account =
        (y.feeding words).map Execution.account ∧
      Concludes (x.executions words.length) result ∧ Concludes (y.feeding words) result ∧
      (result = .ok (.limitReached words.length) ∨ ∃ e, result = .error e) := by
  induction words generalizing x y with
  | nil =>
    exact ⟨x, y, _, .nil x, .nil y, h, rfl, .limited (List.forall_mem_nil _),
      .limited (List.forall_mem_nil _), .inl rfl⟩
  | cons word words ih =>
    rw [List.forall_mem_cons] at hstraight
    obtain ⟨xs, ys, hx, hy, hr, hsame, hend⟩ :=
      h.executes hstraight.1 fun ys hy => hapart _ (mem_feeding hy)
    have haccount := h.account_eq hx hy hr
    have hfetch : x.fetch = word := fetch_of_holds hholds
    have hstep : x.step = .ok xs := by
      rw [← hfetch] at hx
      exact hx.execute_eq
    obtain ⟨e, he⟩ | ⟨hproceed, hnext, hblock⟩ := hend
    · have hxr : xs.result = .error e := hr.trans he
      rw [List.length_cons, executions_stop hstep (by simp [hxr]), hfetch, feeding_stop hy he]
      refine ⟨_, _, .error e, .cons hx (.nil _), .cons hy (.nil _), hsame, ?_,
        .single_failed hxr, .single_failed he, .inr ⟨e, rfl⟩⟩
      rw [List.map_singleton, List.map_singleton, haccount]
    · have hxr : xs.result = .ok .proceed := hr.trans hproceed
      rw [feeding_proceed hy hproceed, List.forall_mem_cons] at hapart
      obtain ⟨x', y', result, hcx, hcy, hsame', hmap, hconx, hcony, hresult⟩ :=
        ih hsame (hholds.tail hnext hblock) hstraight.2 hapart.2
      rw [List.length_cons, executions_proceed hstep hxr, hfetch, feeding_proceed hy hproceed]
      refine ⟨x', y', _, .cons hx hcx, .cons hy hcy, hsame', ?_, hconx.cons hxr,
        hcony.cons hproceed, ?_⟩
      · rw [List.map_cons, List.map_cons, haccount, hmap]
      · obtain rfl | ⟨e, rfl⟩ := hresult
        · rw [Nat.add_comm words.length 1]
          exact .inl rfl
        · exact .inr ⟨e, rfl⟩

omit [TrapHandler σ] in
/-- After an image has been loaded, its machine and one that starts at the origin without it differ
in the cells of the image only. -/
theorem sameOff_loadImage {o : Word} {loaded : Loaded σ}
    (h : m.loadImage (o :: words) = .ok loaded) :
    loaded.machine.SameOff (InBlock o words.length) (m.setPc o) ∧
      loaded.machine.state.config.Holds (InBlock o words.length) words := by
  obtain ⟨first, hload, rfl⟩ := loadImage_cons_eq_ok_iff.1 h
  obtain ⟨hregs, hhandler, hmem⟩ := load_leaves hload
  have hfits := (load_eq_ok_iff.1 hload).1
  constructor
  · refine ⟨State.agreesOff_iff.2 ⟨?_, hmem.outside⟩, hhandler⟩
    exact congrArg (fun regs : RegisterFile => { regs with pc := o }) hregs
  · intro i hi
    have hat : (BitVec.ofNat 16 (o.toNat + i)).toNat = o.toNat + i :=
      (BitVec.toNat_ofNat _ 16).trans (Nat.mod_eq_of_lt (by omega))
    refine ⟨⟨Nat.le_add_right _ _, Nat.add_lt_add_left hi _⟩, ?_⟩
    show (first.machine.setPc o).state.config.mem (o.toNat + i) = words[i].toNat
    rw [← hat, State.mem_config]
    exact congrArg BitVec.toNat (hmem.inside i hi _ hat)

/-- A program without jumps and calls is loaded and the machine makes as many steps as it has words,
or its words are fed to a machine that was the same, from the same PC on, until one of them fails.
If the words that are fed access no cell in which the program would stand, both execute the same
words with the same results and events, and end with the same registers and with the same memory
outside of these cells. -/
theorem feeding_agrees_with_loading (m : Machine σ) (o : Word) (ws : List Word)
    (hfits : o.toNat + ws.length ≤ 65536) (hstraight : ∀ w ∈ ws, Straight w)
    (hapart : ∀ e ∈ (m.setPc o).feeding ws, ∀ a ∈ e.accesses, ¬InBlock o ws.length a) :
    ∃ loaded, m.loadImage (o :: ws) = .ok loaded ∧
      let stepped := loaded.machine.executions ws.length
      let fed := (m.setPc o).feeding ws
      stepped.map Execution.account = fed.map Execution.account ∧
      (∃ result, Concludes stepped result ∧ Concludes fed result ∧
        (result = .ok (.limitReached ws.length) ∨ ∃ e, result = .error e)) ∧
      ∃ x y, loaded.machine.Chain stepped x ∧ (m.setPc o).Chain fed y ∧
        x.state.regs = y.state.regs ∧ x.handler = y.handler ∧
        ∀ a, ¬InBlock o ws.length a.toNat → x.state.mem.read a = y.state.mem.read a := by
  obtain ⟨loaded, hload⟩ : ∃ loaded, m.loadImage (o :: ws) = .ok loaded :=
    ⟨_, loadImage_cons_eq_ok_iff.2 ⟨_, load_of_fits m hfits, rfl⟩⟩
  obtain ⟨hsame, hholds⟩ := sameOff_loadImage hload
  obtain ⟨x, y, result, hcx, hcy, hend, haccounts, hx, hy, hresult⟩ :=
    hsame.executions hholds hstraight hapart
  obtain ⟨hregs, hmem⟩ := State.agreesOff_iff.1 hend.config
  exact ⟨loaded, hload, haccounts, ⟨result, hx, hy, hresult⟩, x, y, hcx, hcy, hregs, hend.handler,
    hmem⟩

/-- ADD puts 5 into R1, ST puts it 16 cells before the address behind it, and the last word would be
an ADD again. -/
def brink : List Word :=
  [0x1265, 0x33F0, 0x1265]

def pristine : Machine Recorder :=
  withHandler {}

theorem pristine_feeding : ∃ e₁ e₂ e₃, (pristine.setPc 0xFFFD).feeding brink = [e₁, e₂, e₃] ∧
    e₁.accesses = [] ∧ e₂.accesses = [0xFFEF] ∧ e₃.accesses = [] ∧
    e₁.step.result = .ok .proceed ∧ e₂.step.result = .ok .proceed ∧
    e₃.step.result = .error (.addressOutOfRange 0x10000) :=
  ⟨_, _, _, rfl, rfl, rfl, rfl, rfl, rfl, rfl⟩

theorem pristine_apart : ∀ e ∈ (pristine.setPc 0xFFFD).feeding brink, ∀ a ∈ e.accesses,
    ¬InBlock 0xFFFD brink.length a := by
  obtain ⟨e₁, e₂, e₃, hfed, h₁, h₂, h₃, -⟩ := pristine_feeding
  have hout : ¬InBlock 0xFFFD brink.length 0xFFEF := fun h => absurd h.1 (by decide)
  rw [hfed, List.forall_mem_cons, List.forall_mem_cons, List.forall_mem_singleton, h₁, h₂, h₃]
  exact ⟨List.forall_mem_nil _, List.forall_mem_singleton.2 hout, List.forall_mem_nil _⟩

/-- Loaded as an image that ends with the last address, these words execute as if they were fed: the
last one has no address behind it and fails. -/
theorem feeding_agrees_with_loading_brink :
    (0xFFFD : Word).toNat + brink.length ≤ 65536 ∧ (∀ w ∈ brink, Straight w) ∧
      (∀ e ∈ (pristine.setPc 0xFFFD).feeding brink, ∀ a ∈ e.accesses,
        ¬InBlock 0xFFFD brink.length a) ∧
      ∃ loaded, pristine.loadImage (0xFFFD :: brink) = .ok loaded ∧
        (loaded.machine.executions brink.length).map (·.step.result) =
          [.ok .proceed, .ok .proceed, .error (.addressOutOfRange 0x10000)] := by
  have hfits : (0xFFFD : Word).toNat + brink.length ≤ 65536 := by decide
  have hstraight : ∀ w ∈ brink, Straight w := by
    rw [brink, List.forall_mem_cons, List.forall_mem_cons, List.forall_mem_singleton]
    decide
  obtain ⟨loaded, hload, haccounts, -⟩ :=
    feeding_agrees_with_loading pristine 0xFFFD brink hfits hstraight pristine_apart
  obtain ⟨e₁, e₂, e₃, hfed, -, -, -, h₁, h₂, h₃⟩ := pristine_feeding
  refine ⟨hfits, hstraight, pristine_apart, loaded, hload, ?_⟩
  rw [Execution.results_eq_of_accounts haccounts, hfed]
  simp only [List.map_cons, List.map_nil, h₁, h₂, h₃]

end Machine
end Lc3
