import Mathlib
import Lc3.Memory.Lemmas
import Lc3.State

/-! # The instruction set on plain numbers

A second account of the instructions other than TRAP, independent of decoding and of the machine:
the bits of the word are cut out by division and remainder, contents of registers and cells are
natural numbers below `2 ^ 16`, addresses are integers.

* `Config`: registers, PC, condition code and cells as numbers; `State.config` forgets everything
  else of a state.
* `bits`, `signed`, `offset`, `register`, `vector`: fields of a word.
* `target`: the integer address, if any, that has to exist for the instruction to succeed.
* `next`: the configuration after an instruction that succeeds.
* `State.DiffersAt`: nothing but one register tells two states apart.
* `State.config_eq_iff`: two states have the same view iff they have the same registers and cells.

With `P` for PC + 1, every address is `P` or a base register plus an offset, and every read is made
in the configuration before the instruction.
-/

namespace Lc3
set_option autoImplicit false

namespace Reference

/-! ## Configurations -/

structure Config where
  reg : Fin 8 → Nat
  pc : Nat
  cond : Condition
  mem : Nat → Nat

/-! ## Fields -/

/-- The `count` bits of `w` from bit `low` on; bit 0 is the lowest. -/
def bits (w : Word) (low count : Nat) : Nat :=
  w.toNat / 2 ^ low % 2 ^ count

/-- A number of `width` bits in two's complement. -/
def signed (width n : Nat) : Int :=
  if 2 * n < 2 ^ width then n else n - 2 ^ width

def offset (w : Word) (width : Nat) : Int :=
  signed width (bits w 0 width)

def register (w : Word) (low : Nat) : Fin 8 :=
  ⟨bits w low 3, Nat.mod_lt _ (by decide)⟩

def vector (w : Word) : Byte :=
  BitVec.ofNat 8 (bits w 0 8)

def sign (v : Nat) : Condition :=
  if signed 16 v < 0 then .negative
  else if signed 16 v = 0 then .zero
  else .positive

/-! ## Addresses -/

def InSpace (x : Int) : Prop :=
  0 ≤ x ∧ x ≤ 65535

instance (x : Int) : Decidable (InSpace x) :=
  inferInstanceAs (Decidable (_ ∧ _))

def pcRelative (w : Word) (width : Nat) (c : Config) : Int :=
  c.pc + 1 + offset w width

def baseRelative (w : Word) (c : Config) : Int :=
  c.reg (register w 6) + offset w 6

/-- Whether bit 11, 10 or 9 selects the condition code. -/
def selects (w : Word) (c : Config) : Bool :=
  match c.cond with
  | .negative => bits w 11 1 = 1
  | .zero => bits w 10 1 = 1
  | .positive => bits w 9 1 = 1

def target (w : Word) (c : Config) : Option Int :=
  match bits w 12 4 with
  | 0x0 => if selects w c then some (pcRelative w 9 c) else none
  | 0x2 | 0x3 | 0xA | 0xB | 0xE => some (pcRelative w 9 c)
  | 0x4 => if bits w 11 1 = 1 then some (pcRelative w 11 c) else none
  | 0x6 | 0x7 => some (baseRelative w c)
  | _ => none

/-! ## Effects -/

def operand (w : Word) (c : Config) : Int :=
  if bits w 5 1 = 1 then offset w 5 else c.reg (register w 0)

namespace Config

def advance (c : Config) : Config :=
  { c with pc := c.pc + 1 }

/-- `v` in register `d`, and the condition code its sign. -/
def result (c : Config) (d : Fin 8) (v : Nat) : Config :=
  { c with reg := Function.update c.reg d v, cond := sign v }

def store (c : Config) (a v : Nat) : Config :=
  { c with mem := Function.update c.mem a v }

def link (c : Config) : Config :=
  { c with reg := Function.update c.reg 7 (c.pc + 1) }

def goto (c : Config) (a : Nat) : Config :=
  { c with pc := a }

end Config

def next (w : Word) (c : Config) : Config :=
  match bits w 12 4 with
  | 0x0 => if selects w c then c.goto (pcRelative w 9 c).toNat else c.advance
  | 0x1 =>
    c.advance.result (register w 9) ((c.reg (register w 6) + operand w c) % 2 ^ 16).toNat
  | 0x2 => c.advance.result (register w 9) (c.mem (pcRelative w 9 c).toNat)
  | 0x3 => c.advance.store (pcRelative w 9 c).toNat (c.reg (register w 9))
  | 0x4 =>
    if bits w 11 1 = 1 then c.link.goto (pcRelative w 11 c).toNat
    else c.link.goto (c.reg (register w 6))
  | 0x5 =>
    c.advance.result (register w 9) (c.reg (register w 6) &&& (operand w c % 2 ^ 16).toNat)
  | 0x6 => c.advance.result (register w 9) (c.mem (baseRelative w c).toNat)
  | 0x7 => c.advance.store (baseRelative w c).toNat (c.reg (register w 9))
  | 0x9 => c.advance.result (register w 9) (2 ^ 16 - 1 - c.reg (register w 6))
  | 0xA => c.advance.result (register w 9) (c.mem (c.mem (pcRelative w 9 c).toNat))
  | 0xB => c.advance.store (c.mem (pcRelative w 9 c).toNat) (c.reg (register w 9))
  | 0xC => c.goto (c.reg (register w 6))
  | 0xE => c.advance.result (register w 9) (pcRelative w 9 c).toNat
  | _ => c

end Reference

/-! ## The view of a state -/

/-- The registers after `v` was written to register `d` as a result. -/
def RegisterFile.withResult (regs : RegisterFile) (d : Fin 8) (v : Word) : RegisterFile :=
  { regs with general := regs.general.set d v, condition := .ofWord v }

namespace RegisterFile
variable (regs : RegisterFile) (d : Fin 8) (v : Word)

theorem general_withResult_self : (regs.withResult d v).general[d] = v := by
  simp [withResult]

theorem general_withResult_of_ne {d k : Fin 8} (h : k ≠ d) :
    (regs.withResult d v).general[k] = regs.general[k] := by
  have hval : ¬d.val = k.val := fun e => h (Fin.ext e.symm)
  simp [withResult, hval]

/-- A result hides the one before it, unless that went to another register. -/
theorem general_withResult_withResult {r d k : Fin 8} (u : Word) (h : k ≠ r ∨ k = d) :
    ((regs.withResult r u).withResult d v).general[k] = (regs.withResult d v).general[k] := by
  by_cases hd : k = d
  · subst hd
    rw [general_withResult_self, general_withResult_self]
  · rw [general_withResult_of_ne _ v hd, general_withResult_of_ne _ v hd]
    exact general_withResult_of_ne regs u (h.resolve_right hd)

end RegisterFile

/-- A state as numbers; what is lost is the undo log of the memory. -/
def State.config (s : State) : Reference.Config where
  reg := fun r => s.regs.general[r].toNat
  pc := s.regs.pc.toNat
  cond := s.regs.condition
  mem := fun a => if a < 2 ^ 16 then (s.mem.read (BitVec.ofNat 16 a)).toNat else 0

/-- The two states differ at most in register `r`, and not even there if it is register `d`. -/
structure State.DiffersAt (r d : Byte) (s t : State) : Prop where
  general : ∀ k : Fin 8, k.val ≠ r.toNat ∨ k.val = d.toNat →
    s.regs.general[k] = t.regs.general[k]
  pc : s.regs.pc = t.regs.pc
  condition : s.regs.condition = t.regs.condition
  mem : s.mem = t.mem

namespace State

theorem mem_config (s : State) (a : Word) : s.config.mem a.toNat = (s.mem.read a).toNat := by
  show (if a.toNat < 2 ^ 16 then (s.mem.read (BitVec.ofNat 16 a.toNat)).toNat else 0) = _
  rw [if_pos a.isLt, BitVec.ofNat_toNat, BitVec.setWidth_eq]

theorem config_eq_iff {s t : State} :
    s.config = t.config ↔ s.regs = t.regs ∧ ∀ a, s.mem.read a = t.mem.read a := by
  constructor
  · intro h
    have hreg := congrArg Reference.Config.reg h
    have hpc := congrArg Reference.Config.pc h
    have hcond := congrArg Reference.Config.cond h
    have hmem := congrArg Reference.Config.mem h
    refine ⟨?_, fun a => ?_⟩
    · obtain ⟨⟨general, pc, cond⟩, mem⟩ := s
      obtain ⟨⟨general', pc', cond'⟩, mem'⟩ := t
      rw [RegisterFile.mk.injEq]
      refine ⟨Vector.ext fun i hi => ?_, BitVec.eq_of_toNat_eq hpc, hcond⟩
      exact BitVec.eq_of_toNat_eq (congrFun hreg ⟨i, hi⟩)
    · have ha := congrFun hmem a.toNat
      rw [mem_config, mem_config] at ha
      exact BitVec.eq_of_toNat_eq ha
  · rintro ⟨hregs, hmem⟩
    unfold config
    simp only [hregs, hmem]

/-! ## The view of an update -/

theorem reg_set (general : Vector Word 8) (d : Fin 8) (v : Word) :
    (fun r : Fin 8 => (general.set d v)[r].toNat) =
      Function.update (fun r : Fin 8 => general[r].toNat) d v.toNat := by
  funext r
  by_cases h : r = d
  · subst h
    simp
  · have hv : ¬d.val = r.val := fun e => h (Fin.ext e.symm)
    rw [Function.update_of_ne h]
    simp [hv]

theorem config_write (regs : RegisterFile) (mem : Memory) (a v : Word) :
    ({ regs, mem := mem.write a v } : State).config =
      ({ regs, mem } : State).config.store a.toNat v.toNat := by
  simp only [config, Reference.Config.store, Reference.Config.mk.injEq, true_and]
  funext b
  by_cases h : b = a.toNat
  · subst h
    rw [Function.update_self, if_pos a.isLt, BitVec.ofNat_toNat, BitVec.setWidth_eq,
      Memory.read_write_self]
  · rw [Function.update_of_ne h]
    by_cases hb : b < 2 ^ 16
    · have hne : BitVec.ofNat 16 b ≠ a := by
        intro e
        apply h
        rw [← e, BitVec.toNat_ofNat, Nat.mod_eq_of_lt hb]
      rw [if_pos hb, if_pos hb, Memory.read_write_of_ne mem v hne]
    · rw [if_neg hb, if_neg hb]

end State

end Lc3
