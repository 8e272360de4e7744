import Lc3.Proofs.Atomicity
import Lc3.Proofs.Loading
import Lc3.Proofs.Results

/-! # Every read finds the last write

Cells are written by stores, loads, resets, services and from outside, and some of these writes are
taken back later. What is left is a list of writes, in order, and each cell holds the last word of
this list that went to it. Nothing reads a cell in any other way: so a program that overwrites its
own next instruction executes the new one, and a pointer that was overwritten is followed where it
points now.

* `lastWrite?`, `Memory.Wrote`: a list of writes, and what it makes of a memory.
* `Edit.wrote`, `Wrote.editAll`: edits as lists of writes.
* `Reference.loaded?`, `Reference.stored?`: what an instruction loads and what it stores, as a
  function of the cells.
* `Execution.writes`, `Command.writes`: the writes of an execution and of a command. One that fails
  has none.
* `Executes.wrote`, `Sets.wrote`: an execution and a command do nothing else to the memory.
* `Machine.History`: what has happened to a machine. `LeadsTo.history`: every session is a history.
* `History.wrote`: the memory after a history is that of its writes.
* `reads_return_last_writes`: cells, fetches, loads and stores after any history.
-/

namespace Lc3
set_option autoImplicit false
open Reference

/-! ## Lists of writes -/

/-- The word that went to `a` last, if any did. -/
def lastWrite? (writes : List (Word × Word)) (a : Word) : Option Word :=
  writes.reverse.lookup a

theorem lastWrite?_append (writes writes' : List (Word × Word)) (a : Word) :
    lastWrite? (writes ++ writes') a = (lastWrite? writes' a).or (lastWrite? writes a) := by
  rw [lastWrite?, List.reverse_append, List.lookup_append]
  rfl

theorem lastWrite?_singleton (a w b : Word) :
    lastWrite? [(a, w)] b = if b = a then some w else none := by
  rw [lastWrite?, List.reverse_singleton, List.lookup_cons]
  by_cases h : b = a
  · rw [if_pos h, beq_iff_eq.2 h]
  · rw [if_neg h, beq_false_of_ne h]
    rfl

/-- The writes of a block to the addresses from `a` on. -/
def blockWrites : Word → List Word → List (Word × Word)
  | _, [] => []
  | a, w :: ws => (a, w) :: blockWrites (a + 1) ws

namespace Memory

def Edit.writes : Edit → List (Word × Word)
  | write a w => [(a, w)]
  | load a ws => if Fits a ws.length then blockWrites a ws else []
  | clear => entries zeroed.cells

/-- Each cell of `m'` holds the last word that was written to it, and if there was none, what it
holds in `m`. -/
def Wrote (m : Memory) (writes : List (Word × Word)) (m' : Memory) : Prop :=
  ∀ a, m'.read a = (lastWrite? writes a).getD (m.read a)

variable {m m' m'' : Memory} {writes writes' : List (Word × Word)}

theorem Wrote.of_read_eq (h : ∀ a, m'.read a = m.read a) : m.Wrote [] m' :=
  h

theorem Wrote.trans (h : m.Wrote writes m') (h' : m'.Wrote writes' m'') :
    m.Wrote (writes ++ writes') m'' := by
  intro a
  rw [h' a, h a, lastWrite?_append, Option.getD_or]

theorem Wrote.write (m : Memory) (a w : Word) : m.Wrote [(a, w)] (m.write a w) := by
  intro b
  rw [read_write, lastWrite?_singleton]
  split <;> rfl

theorem Wrote.writeBlock (m : Memory) (a : Word) (ws : List Word) :
    m.Wrote (blockWrites a ws) (m.writeBlock a ws) := by
  induction ws generalizing m a with
  | nil => exact .of_read_eq fun _ => rfl
  | cons w ws ih => exact (Wrote.write m a w).trans (ih (m.write a w) (a + 1))

theorem lookup_entries_of_mem (word : Fin 65536 → Word) {l : List (Fin 65536)} {j : Fin 65536}
    (hj : j ∈ l) :
    (l.map fun i => ((BitVec.ofFin i : Word), word i)).lookup (BitVec.ofFin j) =
      some (word j) := by
  induction l with
  | nil => cases hj
  | cons i l ih =>
    rw [List.map_cons, List.lookup_cons]
    by_cases hij : j = i
    · subst hij
      simp
    · have hne : ((BitVec.ofFin j : Word) == BitVec.ofFin i) = false :=
        beq_false_of_ne fun e => hij (congrArg BitVec.toFin e)
      rw [hne]
      exact ih ((List.mem_cons.1 hj).resolve_left hij)

theorem lastWrite?_entries (m : Memory) (a : Word) :
    lastWrite? (entries m.cells) a = some (m.read a) := by
  rw [lastWrite?, entries, ← List.map_reverse]
  exact lookup_entries_of_mem (fun i => m.cells[i]) (List.mem_reverse.2 (List.mem_finRange a.toFin))

theorem Wrote.clear (m : Memory) : m.Wrote (entries zeroed.cells) m.clear := by
  intro a
  rw [lastWrite?_entries, Option.getD_some]
  obtain ⟨cells, _ | log⟩ := m <;> rfl

theorem Edit.wrote (e : Edit) (m : Memory) : m.Wrote e.writes (e.apply m) := by
  cases e with
  | write a w => exact .write m a w
  | clear => exact .clear m
  | load a ws =>
    simp only [writes, apply, perform, Memory.load]
    by_cases h : Fits a ws.length
    · rw [if_pos h, if_pos h]
      exact .writeBlock m a ws
    · rw [if_neg h, if_neg h]
      exact .of_read_eq fun _ => rfl

theorem Edit.wrote_of_perform {e : Edit} (h : e.perform m = .ok m') : m.Wrote e.writes m' := by
  have hw := e.wrote m
  rw [apply, h] at hw
  exact hw

theorem Wrote.editAll (m : Memory) (es : List Edit) :
    m.Wrote (es.flatMap Edit.writes) (m.editAll es) := by
  induction es generalizing m with
  | nil => exact .of_read_eq fun _ => rfl
  | cons e es ih => exact (e.wrote m).trans (ih (e.apply m))

end Memory

/-! ## What instructions load and store -/

namespace Reference

def address (x : Int) : Word :=
  BitVec.ofInt 16 x

/-- What LD, LDR and LDI load, if `cell` are the cells. LDI reads twice. -/
def loaded? (w : Word) (c : Config) (cell : Word → Word) : Option Word :=
  match bits w 12 4 with
  | 0x2 => some (cell (address (pcRelative w 9 c)))
  | 0x6 => some (cell (address (baseRelative w c)))
  | 0xA => some (cell (cell (address (pcRelative w 9 c))))
  | _ => none

/-- Where ST, STR and STI store and what, if `cell` are the cells. STI reads where to. -/
def stored? (w : Word) (c : Config) (cell : Word → Word) : Option (Word × Word) :=
  let word : Word := BitVec.ofNat 16 (c.reg (register w 9))
  match bits w 12 4 with
  | 0x3 => some (address (pcRelative w 9 c), word)
  | 0x7 => some (address (baseRelative w c), word)
  | 0xB => some (cell (address (pcRelative w 9 c)), word)
  | _ => none

theorem toNat_address {x : Int} (hx : InSpace x) : (address x).toNat = x.toNat := by
  obtain ⟨h0, h1⟩ := hx
  rw [address, BitVec.toNat_ofInt]
  omega

variable {s : State} {w : Word}

theorem mem_config_address {x : Int} (hx : InSpace x) :
    s.config.mem x.toNat = (s.mem.read (address x)).toNat := by
  rw [← toNat_address hx, State.mem_config]

theorem reg_next_of_loaded (hin : ∀ x ∈ target w s.config, InSpace x) {v : Word}
    (h : loaded? w s.config s.mem.read = some v) :
    (next w s.config).reg (register w 9) = v.toNat := by
  unfold loaded? at h
  split at h
  case h_4 => cases h
  all_goals
    rename_i hop
    cases h
    simp only [target, hop, Option.mem_some_iff, forall_eq'] at hin
    simp only [next, hop, Config.result, Function.update_self, mem_config_address hin]
  rw [State.mem_config]

theorem mem_next_of_stored (hin : ∀ x ∈ target w s.config, InSpace x) {a v : Word}
    (h : stored? w s.config s.mem.read = some (a, v)) :
    (next w s.config).mem = Function.update s.config.mem a.toNat v.toNat := by
  have hword : (BitVec.ofNat 16 (s.config.reg (register w 9))).toNat =
      s.config.reg (register w 9) :=
    (BitVec.toNat_ofNat _ _).trans (Nat.mod_eq_of_lt (BitVec.isLt _))
  unfold stored? at h
  split at h
  case h_4 => cases h
  all_goals
    rename_i hop
    cases h
    simp only [target, hop, Option.mem_some_iff, forall_eq'] at hin
    simp only [next, hop, hword, Config.store]
  · rw [toNat_address hin]
    rfl
  · rw [toNat_address hin]
    rfl
  · rw [mem_config_address hin]
    rfl

theorem mem_next_of_not_stored {c : Config} {cell : Word → Word} (h : stored? w c cell = none) :
    (next w c).mem = c.mem := by
  unfold stored? at h
  unfold next
  split
  case h_1 | h_5 => split <;> rfl
  case h_4 | h_8 | h_11 =>
    rename_i hop
    simp only [hop] at h
    cases h
  all_goals rfl

end Reference

/-! ## What happens to a machine -/

/-- Whatever the service that the word calls, if it is a TRAP, does to the memory, it does by the
edits `es`. -/
def Execution.EditedBy {σ : Type} [TrapHandler σ] (es : List Memory.Edit) (e : Execution σ) :
    Prop :=
  bits e.word 12 4 = 0xF → ∀ served,
    TrapHandler.invoke (vector e.word) e.before.handler e.before.state.entry = .ok served →
      served.state.mem = e.before.state.entry.mem.editAll es

/-- The writes of an execution whose service, if it called one, made the edits `es`. An execution
that failed has written nothing. -/
def Execution.writes {σ : Type} (es : List Memory.Edit) (e : Execution σ) : List (Word × Word) :=
  match e.step.result with
  | .error _ => []
  | .ok _ =>
    if bits e.word 12 4 = 0xF then es.flatMap Memory.Edit.writes
    else (stored? e.word e.before.state.config e.before.state.mem.read).toList

/-- The writes of a command that executes nothing. -/
def Command.writes : Command → List (Word × Word)
  | reset => Memory.Edit.clear.writes
  | load a ws => (Memory.Edit.load a ws).writes
  | loadImage (origin :: program) => (Memory.Edit.load origin program).writes
  | edit e => e.writes
  | loadImage [] | setPc _ | setRegister .. | step | execute _ | run | runLimit _ => []

/-- A word was executed, or a command was given that executes nothing. -/
inductive Happening (σ : Type) where
  | executed (e : Execution σ)
  | commanded (command : Command)

/-- What a happening has written, if `edits` are the edits of the services. -/
def Happening.writes {σ : Type} (edits : Execution σ → List Memory.Edit) :
    Happening σ → List (Word × Word)
  | executed e => e.writes (edits e)
  | commanded command => command.writes

/-- A service is called with one state and does one thing to it. -/
theorem Execution.exists_editedBy {σ : Type} [TrapHandler σ] (e : Execution σ) :
    ∃ es, e.before.CallsEditor e.word → e.EditedBy es := by
  cases hs : TrapHandler.invoke (vector e.word) e.before.handler e.before.state.entry with
  | error cause =>
    refine ⟨[], fun _ _ served hs' => ?_⟩
    rw [hs] at hs'
    cases hs'
  | ok served =>
    by_cases hedited : e.before.state.entry.mem.Edited served.state.mem
    · obtain ⟨es, hes⟩ := hedited
      refine ⟨es, fun _ _ served' hs' => ?_⟩
      rw [hs] at hs'
      cases hs'
      exact hes
    · exact ⟨[], fun h hop => absurd (h _ (decode_eq_trap e.word hop) _ hs) hedited⟩

theorem Execution.EditedBy.callsEditor {σ : Type} [TrapHandler σ] {e : Execution σ}
    {es : List Memory.Edit} (h : e.EditedBy es) : e.before.CallsEditor e.word := by
  intro v hd served hs
  obtain ⟨hop, rfl⟩ := (decode_eq_trap_iff e.word).1 hd
  exact ⟨es, h hop served hs⟩

namespace Machine
variable {σ : Type} [TrapHandler σ] {m m' m'' : Machine σ} {word : Word} {step : Step σ}

theorem Executes.general_of_loaded (h : m.Executes word step) {outcome : Outcome}
    (hr : step.result = .ok outcome) {v : Word}
    (hv : loaded? word m.state.config m.state.mem.read = some v) :
    step.machine.state.regs.general[register word 9] = v := by
  have hne : bits word 12 4 ≠ 0xF := by
    intro hop
    simp only [loaded?, hop] at hv
    cases hv
  obtain ⟨hin, hc⟩ := h.next_of_ok hne hr
  have hreg := reg_next_of_loaded hin hv
  rw [← hc] at hreg
  exact BitVec.eq_of_toNat_eq hreg

/-- The cells after an instruction other than TRAP that succeeds: one store, or none. -/
theorem Executes.wrote_stored (h : m.Executes word step) (hne : bits word 12 4 ≠ 0xF)
    {outcome : Outcome} (hr : step.result = .ok outcome) :
    m.state.mem.Wrote (stored? word m.state.config m.state.mem.read).toList
      step.machine.state.mem := by
  obtain ⟨hin, hc⟩ := h.next_of_ok hne hr
  intro b
  refine BitVec.eq_of_toNat_eq ?_
  rw [← State.mem_config, hc]
  cases hst : stored? word m.state.config m.state.mem.read with
  | none =>
    rw [mem_next_of_not_stored hst]
    exact State.mem_config m.state b
  | some entry =>
    obtain ⟨a, v⟩ := entry
    rw [mem_next_of_stored hin hst, Option.toList_some, lastWrite?_singleton]
    by_cases hb : b = a
    · rw [hb, Function.update_self, if_pos rfl]
      rfl
    · have hne : b.toNat ≠ a.toNat := fun e => hb (BitVec.eq_of_toNat_eq e)
      rw [Function.update_of_ne hne, if_neg hb]
      exact State.mem_config m.state b

theorem Executes.wrote {es : List Memory.Edit} (h : m.Executes word step)
    (hes : Execution.EditedBy es { before := m, word, step }) :
    m.state.mem.Wrote (Execution.writes es { before := m, word, step })
      step.machine.state.mem := by
  simp only [Execution.writes]
  cases hr : step.result with
  | error e =>
    exact .of_read_eq (h.restores hes.callsEditor hr).2
  | ok outcome =>
    by_cases hop : bits word 12 4 = 0xF
    · simp only [if_pos hop]
      cases h with
      | lastAddress | illegal | rejected | refused => cases hr
      | performed hpc hd hv => exact absurd hop (opcode_of_vector?_none word hd hv).2.2
      | @served v served verdict hpc hd hs hr' =>
        obtain ⟨-, rfl⟩ := (decode_eq_trap_iff word).1 hd
        have hleft := Memory.Wrote.editAll m.state.entry.mem es
        rw [← hes hop served hs] at hleft
        exact hleft
    · simp only [if_neg hop]
      exact h.wrote_stored hop hr

omit [TrapHandler σ] in
theorem wrote_of_load_refused {a : Word} {ws : List Word} {e : LoadError}
    (h : m.load a ws = .error e) :
    m.state.mem.Wrote (Memory.Edit.load a ws).writes m.state.mem := by
  have hfits : ¬Memory.Fits a ws.length := Nat.not_le.2 (load_eq_error_iff.1 h).1
  rw [Memory.Edit.writes, if_neg hfits]
  exact .of_read_eq fun _ => rfl

omit [TrapHandler σ] in
theorem Sets.wrote {command : Command} (h : m.Sets command m') :
    m.state.mem.Wrote command.writes m'.state.mem := by
  cases h with
  | setPc | setRegister => exact .of_read_eq fun _ => rfl
  | reset => exact .clear m.state.mem
  | load hl | image hl => exact Memory.Edit.wrote_of_perform (e := .load _ _) hl
  | loadRefused he => exact wrote_of_load_refused he
  | @imageRefused image e he =>
    cases image with
    | nil => exact .of_read_eq fun _ => rfl
    | cons origin program => exact wrote_of_load_refused (loadImage_cons_eq_error_iff.1 he)
  | edit he => exact Memory.Edit.wrote_of_perform he
  | @editRefused e cause he =>
    have hw := e.wrote m.state.mem
    unfold Machine.edit at he
    cases hperform : e.perform m.state.mem with
    | ok mem =>
      rw [hperform] at he
      cases he
    | error cause' =>
      rw [Memory.Edit.apply, hperform] at hw
      exact hw

omit [TrapHandler σ] in
theorem Sets.not_executing {command : Command} (h : m.Sets command m') : ¬command.Executing := by
  cases h <;> exact id

/-- What has happened to a machine since it was `m`. The trap handler may have been changed or
replaced in between. -/
inductive History (m : Machine σ) : List (Happening σ) → Machine σ → Prop
  | nil : History m [] m
  | executed {m' : Machine σ} {hs : List (Happening σ)} {word : Word} {step : Step σ}
      (h : History m hs m') (hx : m'.execute word = .ok step) :
      History m (hs ++ [.executed { before := m', word, step }]) step.machine
  | commanded {m' : Machine σ} {hs : List (Happening σ)} {fuel : Nat} {command : Command}
      {performed : Performed σ} (h : History m hs m') (hc : ¬command.Executing)
      (hp : command.perform fuel m' = .ok (some performed)) :
      History m (hs ++ [.commanded command]) performed.machine
  | handler {m' : Machine σ} {hs : List (Happening σ)} (h : History m hs m') (handler : σ) :
      History m hs { m' with handler }

variable {hs : List (Happening σ)}

theorem History.chain (h : m.History hs m') {es : List (Execution σ)} (hes : m'.Chain es m'') :
    ∃ hs', m.History hs' m'' := by
  induction hes generalizing hs with
  | nil m' => exact ⟨hs, h⟩
  | cons hx _ ih => exact ih (h.executed hx.execute_eq)

theorem LeadsTo.history (h : m.LeadsTo m') : ∃ hs, m.History hs m' := by
  induction h with
  | refl => exact ⟨[], .nil⟩
  | handler _ handler ih =>
    obtain ⟨hs, hm⟩ := ih
    exact ⟨hs, hm.handler handler⟩
  | @command m' fuel command performed _ hp ih =>
    obtain ⟨hs, hm⟩ := ih
    obtain ⟨-, hchain⟩ | ⟨hsets, -⟩ := Command.perform_cases hp
    · exact hm.chain hchain
    · exact ⟨_, hm.commanded hsets.not_executing hp⟩

theorem History.wrote {edits : Execution σ → List Memory.Edit} (h : m.History hs m')
    (hes : ∀ e, .executed e ∈ hs → e.EditedBy (edits e)) :
    m.state.mem.Wrote (hs.flatMap (Happening.writes edits)) m'.state.mem := by
  induction h with
  | nil => exact .of_read_eq fun _ => rfl
  | handler _ _ ih => exact ih hes
  | executed h hx ih =>
    have hfront := ih fun e he => hes e (List.mem_append_left _ he)
    rw [List.flatMap_append, List.flatMap_singleton]
    exact hfront.trans ((execute_eq_ok_iff.1 hx).wrote (hes _ List.mem_concat_self))
  | commanded h hc hp ih =>
    have hfront := ih fun e he => hes e (List.mem_append_left _ he)
    obtain ⟨hexec, -⟩ | ⟨hsets, -⟩ := Command.perform_cases hp
    · exact absurd hexec hc
    · rw [List.flatMap_append, List.flatMap_singleton]
      exact hfront.trans hsets.wrote

/-- Whatever has happened to a new machine, each cell holds the last word that was written to it, and
0 if there was none. This word is what a step fetches and what LD, LDR and LDI load; LDI and STI
follow the pointer that was written last, and STI, like ST and STR, writes one cell and no other.
The writes are those of stores, loads and resets, those from outside, and those of services that
completed; whatever failed or was refused has written nothing. -/
theorem reads_return_last_writes (handler : σ) :
    (∀ m, (withHandler handler).LeadsTo m → ∃ hs, (withHandler handler).History hs m) ∧
    (∃ edits : Execution σ → List Memory.Edit,
      ∀ e : Execution σ, e.before.CallsEditor e.word → e.EditedBy (edits e)) ∧
    ∀ hs m edits, (withHandler handler).History hs m →
      (∀ e, .executed e ∈ hs → e.EditedBy (edits e)) →
        let cell := fun a => (lastWrite? (hs.flatMap (Happening.writes edits)) a).getD 0
        (∀ a, m.state.mem.read a = cell a) ∧
        m.step = m.execute (cell m.pc) ∧
        ∀ word step outcome, m.execute word = .ok step → step.result = .ok outcome →
          (∀ v, loaded? word m.state.config cell = some v →
            step.machine.state.regs.general[register word 9] = v) ∧
          (bits word 12 4 ≠ 0xF → ∀ a, step.machine.state.mem.read a =
            (lastWrite? (stored? word m.state.config cell).toList a).getD (cell a)) := by
  refine ⟨fun m h => h.history, ?_, fun hs m edits h hes => ?_⟩
  · choose edits hedits using Execution.exists_editedBy (σ := σ)
    exact ⟨edits, hedits⟩
  · intro cell
    have hcell : m.state.mem.read = cell := by
      funext a
      rw [h.wrote hes a]
      exact congrArg (Option.getD _) (Memory.read_zeroed a)
    refine ⟨congrFun hcell, by rw [← hcell]; rfl, fun word step outcome hs hr => ?_⟩
    rw [← hcell]
    have hx := execute_eq_ok_iff.1 hs
    exact ⟨fun v hv => hx.general_of_loaded hr hv, fun hne => hx.wrote_stored hne hr⟩

/-- A new machine on which vector 0x30 calls `scribble`. -/
def blank : Machine (TrapTable ScriptedRoutine) :=
  withHandler scribbled.handler

/-- The machine after 7 was put into cell 5. -/
def noted : Machine (TrapTable ScriptedRoutine) where
  state := { regs := .initial, mem := Memory.zeroed.write 5 7 }
  handler := blank.handler

theorem noted_get? : noted.handler.get? 0x30 = some (.routine scribble) :=
  scribbled_get?

/-- 7 is put into cell 5, then a TRAP fails whose service has written all over the memory, then a
load is refused. -/
def attempts (failing : Step (TrapTable ScriptedRoutine)) :
    List (Happening (TrapTable ScriptedRoutine)) :=
  [.commanded (.edit (.write 5 7)),
    .executed { before := noted, word := 0xF030, step := failing },
    .commanded (.load 0xFFFF [1, 2])]

theorem blank_history : ∃ failing m, failing.result = .error (.trapRoutineFailed 0x30) ∧
    m.state.regs = .initial ∧ blank.History (attempts failing) m := by
  have hpc : noted.pc ≠ 0xFFFF := by decide
  have hedit : (Command.edit (.write 5 7)).perform 0 blank =
      .ok (some { answer := .done, machine := noted }) := rfl
  obtain ⟨served, hs, hr⟩ := scribble_fails noted_get? noted.state.entry
  have hstep := (Executes.refused hpc decode_scribble hs hr).execute_eq
  have hload (m : Machine (TrapTable ScriptedRoutine)) :
      (Command.load 0xFFFF [1, 2]).perform 0 m = .ok (some
        { answer := .refused (.exceedsAddressSpace 0xFFFF 2), machine := m }) := rfl
  exact ⟨_, _, rfl, rfl, ((History.nil.commanded id hedit).executed hstep).commanded id (hload _)⟩

/-- Nothing is left of what the service wrote and of the block. LD of cell 5 finds the 7. -/
theorem reads_return_last_writes_blank :
    ∃ failing m step, failing.result = .error (.trapRoutineFailed 0x30) ∧
      blank.History (attempts failing) m ∧
      (∀ e, .executed e ∈ attempts failing → e.before.CallsEditor e.word) ∧
      m.state.mem.read 0x4000 = 0 ∧ m.execute 0x2204 = .ok step ∧ step.result = .ok .proceed ∧
      step.machine.state.regs.general[register 0x2204 9] = 7 := by
  obtain ⟨failing, m, hfailing, hregs, hm⟩ := blank_history
  obtain ⟨-, ⟨edits, hedits⟩, hreads⟩ := reads_return_last_writes scribbled.handler
  have hcalls : ∀ e, .executed e ∈ attempts failing → e.before.CallsEditor e.word := by
    intro e he
    simp only [attempts, List.mem_cons, reduceCtorEq, Happening.executed.injEq, false_or,
      List.not_mem_nil, or_false] at he
    subst he
    exact callsEditor_of_script decode_scribble noted_get? scribble_edits
  obtain ⟨hcells, -, hnext⟩ := hreads _ m edits hm fun e he => hedits e (hcalls e he)
  have hwrites : (attempts failing).flatMap (Happening.writes edits) = [(5, 7)] := by
    simp [attempts, Happening.writes, Execution.writes, hfailing, Command.writes,
      Memory.Edit.writes, Memory.Fits, Memory.size]
  rw [hwrites] at hcells hnext
  have hat : m.state.config.pc = 0 := congrArg (fun regs => regs.pc.toNat) hregs
  have hld : pcRelative 0x2204 9 m.state.config = 5 := by
    rw [pcRelative, hat]
    rfl
  have hpc : m.pc ≠ 0xFFFF := by
    rw [pc, hregs]
    decide
  obtain ⟨step, hs, hok, hres⟩ := execute_refines m 0x2204 hpc (by decide)
  obtain ⟨outcome, ho⟩ := hok.2 fun x hx => by
    obtain rfl : pcRelative 0x2204 9 m.state.config = x := Option.some.inj hx
    rw [hld]
    decide
  obtain ⟨rfl, -⟩ := hres outcome ho
  refine ⟨failing, m, step, hfailing, hm, hcalls, hcells 0x4000, hs, ho, ?_⟩
  refine (hnext 0x2204 step _ hs ho).1 7 ?_
  show some ((lastWrite? [(5, 7)] (address (pcRelative 0x2204 9 m.state.config))).getD 0) = some 7
  rw [hld]
  rfl

end Machine
end Lc3
