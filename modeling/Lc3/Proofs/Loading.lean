import Lc3.Proofs.Execution
import Lc3.Machine.Command
import Lc3.Memory.Lemmas
import Lc3.Trap.Recorder

/-! # Loading is exact, and it is all or nothing

A block of words fits or it does not: its end is computed as an integer and nothing wraps around to
address 0. So a block may end at the last address, and an empty one fits at every address.

* `InBlock`: the addresses of a block.
* `Memory.Receives`: what a block of words makes of a memory, cell by cell.
* `load_eq_ok_iff`, `loadImage_cons_eq_ok_iff`: what is left by a load that succeeds.
* `load_eq_error_iff`, `loadImage_cons_eq_error_iff`: when a load fails, and how.
* `Command.perform_refused`: a command that is refused changes nothing.
* `load_exact`: all of this, and two loads one after the other.
-/

namespace Lc3
set_option autoImplicit false

/-- `x` is one of the `n` addresses from `a` on. -/
def InBlock (a : Word) (n x : Nat) : Prop :=
  a.toNat ≤ x ∧ x < a.toNat + n

namespace Memory

/-- The cells of `m'` hold `ws` from `a` on, and outside of that block what they hold in `m`. -/
structure Receives (m : Memory) (a : Word) (ws : List Word) (m' : Memory) : Prop where
  inside : ∀ i, ∀ hi : i < ws.length, ∀ b : Word, b.toNat = a.toNat + i → m'.read b = ws[i]
  outside : ∀ b : Word, ¬InBlock a ws.length b.toNat → m'.read b = m.read b

theorem receives_writeBlock (m : Memory) {a : Word} {ws : List Word} (h : Fits a ws.length) :
    m.Receives a ws (m.writeBlock a ws) := by
  rw [Fits, size] at h
  have hlen : ws.length ≤ size := by
    rw [size]
    omega
  constructor
  · intro i hi b hb
    have hdist : (b - a).toNat = i := by bv_omega
    rw [read_writeBlock m a b hlen, hdist, List.getElem?_eq_getElem hi, Option.getD_some]
  · intro b hb
    have hdist : ws.length ≤ (b - a).toNat := by
      rw [InBlock] at hb
      bv_omega
    rw [read_writeBlock m a b hlen, List.getElem?_eq_none hdist, Option.getD_none]

/-- A block leaves no choice about any cell. -/
theorem Receives.read_eq {m m' n n' : Memory} {a : Word} {ws : List Word} (h : m.Receives a ws m')
    (h' : n.Receives a ws n') {b : Word}
    (hb : ¬InBlock a ws.length b.toNat → m.read b = n.read b) : m'.read b = n'.read b := by
  by_cases hin : InBlock a ws.length b.toNat
  · obtain ⟨hlow, hhigh⟩ := hin
    have hi : b.toNat - a.toNat < ws.length := by omega
    have hat : b.toNat = a.toNat + (b.toNat - a.toNat) := by omega
    rw [h.inside _ hi b hat, h'.inside _ hi b hat]
  · rw [h.outside b hin, h'.outside b hin, hb hin]

/-- The order of two blocks does not matter if they have no address in common. -/
theorem Receives.comm {m m₁ m₂ n₁ n₂ : Memory} {a b : Word} {ws vs : List Word}
    (h₁ : m.Receives a ws m₁) (h₂ : m₁.Receives b vs m₂) (h₁' : m.Receives b vs n₁)
    (h₂' : n₁.Receives a ws n₂) (hd : ∀ x, ¬(InBlock a ws.length x ∧ InBlock b vs.length x))
    (c : Word) : n₂.read c = m₂.read c := by
  by_cases hb : InBlock b vs.length c.toNat
  · have ha : ¬InBlock a ws.length c.toNat := fun ha => hd _ ⟨ha, hb⟩
    rw [h₂'.outside c ha]
    exact h₁'.read_eq h₂ fun hn => absurd hb hn
  · rw [h₂.outside c hb]
    exact h₂'.read_eq h₁ fun _ => h₁'.outside c hb

end Memory

/-! ## Blocks and images -/

namespace Machine
variable {σ : Type} {m : Machine σ} {a : Word} {ws : List Word}

theorem load_of_fits (m : Machine σ) (h : Memory.Fits a ws.length) :
    m.load a ws = .ok
      { machine := { m with state := { m.state with mem := m.state.mem.writeBlock a ws } },
        event := .loadedBlock a ws.length } := by
  unfold load
  rw [Memory.load_eq_ok_iff.2 ⟨h, rfl⟩]
  rfl

theorem load_of_not_fits (m : Machine σ) (h : ¬Memory.Fits a ws.length) :
    m.load a ws = .error (.exceedsAddressSpace a ws.length) := by
  unfold load Memory.load
  rw [if_neg h]
  rfl

theorem load_eq_ok_iff {loaded : Loaded σ} :
    m.load a ws = .ok loaded ↔ a.toNat + ws.length ≤ 65536 ∧ loaded =
      { machine := { m with state := { m.state with mem := m.state.mem.writeBlock a ws } },
        event := .loadedBlock a ws.length } := by
  by_cases h : Memory.Fits a ws.length
  · rw [load_of_fits m h, Except.ok.injEq, eq_comm]
    exact (and_iff_right h).symm
  · rw [load_of_not_fits m h]
    exact iff_of_false (fun he => nomatch he) fun he => h he.1

theorem load_eq_error_iff {e : LoadError} :
    m.load a ws = .error e ↔
      65536 < a.toNat + ws.length ∧ e = .exceedsAddressSpace a ws.length := by
  by_cases h : Memory.Fits a ws.length
  · rw [load_of_fits m h]
    exact iff_of_false (fun he => nomatch he) fun he => absurd h (Nat.not_le.2 he.1)
  · rw [load_of_not_fits m h, Except.error.injEq, eq_comm]
    exact (and_iff_right (Nat.not_le.1 h)).symm

theorem loadImage_cons (m : Machine σ) (origin : Word) (program : List Word) :
    m.loadImage (origin :: program) = (m.load origin program).map fun loaded =>
      { loaded with machine := loaded.machine.setPc origin } := by
  rw [loadImage]
  cases m.load origin program <;> rfl

theorem loadImage_eq_missingOrigHeader_iff {image : List Word} :
    m.loadImage image = .error .missingOrigHeader ↔ image = [] := by
  cases image with
  | nil => exact iff_of_true rfl rfl
  | cons origin program =>
    refine iff_of_false (fun h => ?_) (List.cons_ne_nil _ _)
    rw [loadImage_cons] at h
    cases hl : m.load origin program with
    | ok loaded =>
      rw [hl] at h
      cases h
    | error e =>
      rw [hl] at h
      cases h
      cases (load_eq_error_iff.1 hl).2

theorem loadImage_cons_eq_error_iff {origin : Word} {program : List Word} {e : LoadError} :
    m.loadImage (origin :: program) = .error e ↔ m.load origin program = .error e := by
  rw [loadImage_cons]
  cases m.load origin program with
  | ok loaded => exact iff_of_false (fun h => nomatch h) fun h => nomatch h
  | error e' => rfl

theorem loadImage_cons_eq_ok_iff {origin : Word} {program : List Word} {loaded : Loaded σ} :
    m.loadImage (origin :: program) = .ok loaded ↔ ∃ first, m.load origin program = .ok first ∧
      loaded = { first with machine := first.machine.setPc origin } := by
  rw [loadImage_cons]
  cases m.load origin program with
  | ok first => simp [Except.map, eq_comm]
  | error e => simp [Except.map]

/-- What a load that succeeds leaves: registers, PC, condition code and handler as they were, and
the block in its cells. -/
theorem load_leaves {loaded : Loaded σ} (h : m.load a ws = .ok loaded) :
    loaded.machine.state.regs = m.state.regs ∧ loaded.machine.handler = m.handler ∧
      m.state.mem.Receives a ws loaded.machine.state.mem := by
  obtain ⟨hfits, rfl⟩ := load_eq_ok_iff.1 h
  exact ⟨rfl, rfl, m.state.mem.receives_writeBlock hfits⟩

end Machine

/-! ## Refused commands -/

namespace Command
variable {σ : Type} [TrapHandler σ] {m : Machine σ}

theorem perform_refused {fuel : Nat} {command : Command} {performed : Performed σ} {e : LoadError}
    (h : command.perform fuel m = .ok (some performed)) (hr : performed.answer = .refused e) :
    performed.machine = m := by
  cases command with
  | load a ws =>
    cases h
    cases hl : m.load a ws with
    | ok loaded =>
      rw [hl] at hr
      cases hr
    | error e' => rfl
  | loadImage image =>
    cases h
    cases hl : m.loadImage image with
    | ok loaded =>
      rw [hl] at hr
      cases hr
    | error e' => rfl
  | edit edit =>
    cases h
    cases hl : m.edit edit with
    | ok edited =>
      rw [hl] at hr
      cases hr
    | error e' => rfl
  | reset | setPc w =>
    cases h
    cases hr
  | setRegister r w =>
    obtain ⟨changed, -, h⟩ := bind_eq_ok.1 h
    cases h
    cases hr
  | step | execute word =>
    obtain ⟨⟨result, machine, events⟩, -, h⟩ := bind_eq_ok.1 h
    cases h
    cases result <;> cases hr
  | run =>
    obtain ⟨run?, -, h⟩ := bind_eq_ok.1 h
    cases run? with
    | none => cases h
    | some run =>
      obtain ⟨result, machine, events⟩ := run
      cases h
      cases result <;> cases hr
  | runLimit max =>
    obtain ⟨⟨result, machine, events⟩, -, h⟩ := bind_eq_ok.1 h
    cases h
    cases result <;> cases hr

end Command

namespace Machine
variable {σ : Type} [TrapHandler σ]

/-- A load succeeds iff the end of its block, as an integer, is not beyond the address space. Then
the block is in its cells and nothing else has changed; if it fails, nothing at all has changed. An
image is loaded like the block behind its first word, and PC is set iff that succeeds; an image
without a first word is an error of its own. Of two blocks the later one wins where they overlap,
and if they do not, their order does not matter. -/
theorem load_exact (m : Machine σ) :
    (∀ a ws, (∃ loaded, m.load a ws = .ok loaded) ↔ a.toNat + ws.length ≤ 65536) ∧
    (∀ a ws loaded, m.load a ws = .ok loaded →
      loaded.machine.state.regs = m.state.regs ∧ loaded.machine.handler = m.handler ∧
        m.state.mem.Receives a ws loaded.machine.state.mem) ∧
    (∀ a ws e, m.load a ws = .error e ↔
      65536 < a.toNat + ws.length ∧ e = .exceedsAddressSpace a ws.length) ∧
    (∀ image, m.loadImage image = .error .missingOrigHeader ↔ image = []) ∧
    (∀ origin program e,
      m.loadImage (origin :: program) = .error e ↔ m.load origin program = .error e) ∧
    (∀ origin program loaded, m.loadImage (origin :: program) = .ok loaded ↔
      ∃ first, m.load origin program = .ok first ∧
        loaded = { first with machine := first.machine.setPc origin }) ∧
    (∀ fuel (command : Command) performed e, command.perform fuel m = .ok (some performed) →
      performed.answer = .refused e → performed.machine = m) ∧
    (∀ a ws b vs first second, m.load a ws = .ok first → first.machine.load b vs = .ok second →
      ∀ c : Word,
        (∀ j, ∀ hj : j < vs.length, c.toNat = b.toNat + j →
          second.machine.state.mem.read c = vs[j]) ∧
        (¬InBlock b vs.length c.toNat →
          (∀ i, ∀ hi : i < ws.length, c.toNat = a.toNat + i →
            second.machine.state.mem.read c = ws[i]) ∧
          (¬InBlock a ws.length c.toNat →
            second.machine.state.mem.read c = m.state.mem.read c))) ∧
    ∀ a ws b vs first second, m.load a ws = .ok first → first.machine.load b vs = .ok second →
      (∀ x, ¬(InBlock a ws.length x ∧ InBlock b vs.length x)) →
        ∃ first' second', m.load b vs = .ok first' ∧ first'.machine.load a ws = .ok second' ∧
          second'.machine.state.regs = second.machine.state.regs ∧
          second'.machine.handler = second.machine.handler ∧
          ∀ c, second'.machine.state.mem.read c = second.machine.state.mem.read c := by
  have hsucceeds (m' : Machine σ) (a : Word) (ws : List Word) :
      (∃ loaded, m'.load a ws = .ok loaded) ↔ a.toNat + ws.length ≤ 65536 := by
    simp only [load_eq_ok_iff, exists_and_left, exists_eq, and_true]
  refine ⟨hsucceeds m, fun a ws loaded => load_leaves, fun a ws e => load_eq_error_iff,
    fun image => loadImage_eq_missingOrigHeader_iff,
    fun origin program e => loadImage_cons_eq_error_iff,
    fun origin program loaded => loadImage_cons_eq_ok_iff,
    fun fuel command performed e => Command.perform_refused,
    fun a ws b vs first second h₁ h₂ c => ?_, fun a ws b vs first second h₁ h₂ hd => ?_⟩
  · obtain ⟨-, -, hfirst⟩ := load_leaves h₁
    obtain ⟨-, -, hsecond⟩ := load_leaves h₂
    refine ⟨fun j hj => hsecond.inside j hj c, fun hb => ?_⟩
    rw [hsecond.outside c hb]
    exact ⟨fun i hi => hfirst.inside i hi c, hfirst.outside c⟩
  · obtain ⟨hregs₁, hhandler₁, hfirst⟩ := load_leaves h₁
    obtain ⟨hregs₂, hhandler₂, hsecond⟩ := load_leaves h₂
    obtain ⟨first', h₁'⟩ := (hsucceeds m b vs).2 (load_eq_ok_iff.1 h₂).1
    obtain ⟨second', h₂'⟩ := (hsucceeds first'.machine a ws).2 (load_eq_ok_iff.1 h₁).1
    obtain ⟨hregs₁', hhandler₁', hfirst'⟩ := load_leaves h₁'
    obtain ⟨hregs₂', hhandler₂', hsecond'⟩ := load_leaves h₂'
    refine ⟨first', second', h₁', h₂', ?_, ?_, hfirst.comm hsecond hfirst' hsecond' hd⟩
    · rw [hregs₂', hregs₁', hregs₂, hregs₁]
    · rw [hhandler₂', hhandler₁', hhandler₂, hhandler₁]

/-- The last cell holds 7. -/
def topped : Machine Recorder where
  state := { regs := .initial, mem := Memory.zeroed.write 0xFFFF 7 }
  handler := {}

/-- A block of two words ends at the last address and leaves address 0 alone; a third word is too
many. The last address is an origin too, of a program without words. A block that is loaded over
the end of another one hides this end only. -/
theorem load_exact_topped :
    (∃ loaded, topped.load 0xFFFE [1, 2] = .ok loaded ∧
      loaded.machine.state.mem.read 0xFFFF = 2 ∧ loaded.machine.state.mem.read 0 = 0) ∧
    topped.load 0xFFFE [1, 2, 3] = .error (.exceedsAddressSpace 0xFFFE 3) ∧
    (Command.loadImage []).perform 0 topped =
      .ok (some { answer := .refused .missingOrigHeader, machine := topped }) ∧
    (∃ loaded, topped.loadImage [0xFFFF] = .ok loaded ∧ loaded.machine.pc = 0xFFFF ∧
      loaded.machine.state.mem.read 0xFFFF = 7) ∧
    ∃ first second, topped.load 0x3000 [1, 2] = .ok first ∧
      first.machine.load 0x3001 [3] = .ok second ∧
      second.machine.state.mem.read 0x3000 = 1 ∧ second.machine.state.mem.read 0x3001 = 3 := by
  obtain ⟨hok, hleaves, herror, -, -, himage, -, htwo, -⟩ := load_exact topped
  refine ⟨?_, (herror _ _ _).2 ⟨by decide, rfl⟩, rfl, ?_, ?_⟩
  · obtain ⟨loaded, h⟩ := (hok 0xFFFE [1, 2]).2 (by decide)
    obtain ⟨-, -, hmem⟩ := hleaves _ _ _ h
    refine ⟨loaded, h, hmem.inside 1 (by decide) 0xFFFF rfl, ?_⟩
    rw [hmem.outside 0 fun hin => absurd hin.1 (by decide)]
    exact Memory.read_write_of_ne _ _ (by decide)
  · obtain ⟨first, h⟩ := (hok 0xFFFF []).2 (by decide)
    obtain ⟨-, -, hmem⟩ := hleaves _ _ _ h
    refine ⟨_, (himage _ _ _).2 ⟨first, h, rfl⟩, rfl, ?_⟩
    show first.machine.state.mem.read 0xFFFF = 7
    rw [hmem.outside 0xFFFF fun hin => absurd hin.2 (by decide)]
    exact Memory.read_write_self _ _ _
  · obtain ⟨first, h₁⟩ := (hok 0x3000 [1, 2]).2 (by decide)
    obtain ⟨hok', -⟩ := load_exact first.machine
    obtain ⟨second, h₂⟩ := (hok' 0x3001 [3]).2 (by decide)
    have hcells := htwo _ _ _ _ _ _ h₁ h₂
    refine ⟨first, second, h₁, h₂, ?_, (hcells 0x3001).1 0 (by decide) rfl⟩
    exact ((hcells 0x3000).2 fun hin => absurd hin.1 (by decide)).1 0 (by decide) rfl

end Machine

end Lc3
