import Lc3.Event
import Lc3.Trap.Table

/-! # The machine

Registers and memory together with the trap handler that serves TRAP instructions. This module has
the operations that set a machine up: building, resetting, loading. What they report is returned
with the machine.
-/

namespace Lc3
set_option autoImplicit false

/-- A machine whose TRAP instructions are served by a handler of type `σ`. -/
structure Machine (σ : Type) where
  state : State
  handler : σ

structure Loaded (σ : Type) where
  machine : Machine σ
  event : Event

namespace Machine

variable {σ : Type}

def withHandler (handler : σ) : Machine σ where
  state := .initial
  handler := handler

/-- A zeroed machine that serves the halting trap only. -/
def standard {ρ : Type} : Machine (TrapTable ρ) :=
  withHandler .withHalt

def pc (m : Machine σ) : Word :=
  m.state.regs.pc

def setPc (m : Machine σ) (w : Word) : Machine σ :=
  { m with state := { m.state with regs := { m.state.regs with pc := w } } }

/-- Puts `w` into register number `r`; the condition code stays. -/
def setRegister (m : Machine σ) (r : Byte) (w : Word) : Except Misuse (Machine σ) := do
  let regs ← m.state.regs.write r w
  return { m with state := { m.state with regs } }

/-- Zeroes registers and memory and keeps the trap handler. -/
def reset (m : Machine σ) : Machine σ :=
  { m with state := { regs := .initial, mem := m.state.mem.clear } }

def edit (m : Machine σ) (e : Memory.Edit) : Except LoadError (Machine σ) := do
  let mem ← e.perform m.state.mem
  return { m with state := { m.state with mem } }

/-- Copies words into memory from `a` on; PC stays. -/
def load (m : Machine σ) (a : Word) (ws : List Word) : Except LoadError (Loaded σ) := do
  let mem ← m.state.mem.load a ws
  return { machine := { m with state := { m.state with mem } },
           event := .loadedBlock a ws.length }

/-- Loads an image, whose first word is the address that the others are loaded to, and sets PC to
that address. -/
def loadImage (m : Machine σ) : List Word → Except LoadError (Loaded σ)
  | [] => .error .missingOrigHeader
  | origin :: program => do
    let loaded ← m.load origin program
    return { loaded with machine := loaded.machine.setPc origin }

end Machine

end Lc3
