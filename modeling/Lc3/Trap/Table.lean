import Lc3.Trap.Handler
import Lc3.Trap.Standard

/-! # Trap tables

A trap handler that looks up a service routine by vector. Each routine keeps its private state with
it, wherever it is registered.

* `ServiceRoutine`: types whose values are routines with a private state.
* `Service`: what a table can hold, the halting service or a routine.
* `TrapTable`: at most one service for each of the 256 vectors; `register`, `unregister`,
  `isRegistered` and `vectors`.
-/

namespace Lc3
set_option autoImplicit false

/-! ## Services -/

class ServiceRoutine (ρ : Type) where
  call (routine : ρ) (s : State) : Except Misuse (Served ρ)

inductive Service (ρ : Type) where
  /-- stops the machine and changes nothing -/
  | halt
  | routine (r : ρ)

def Service.call {ρ : Type} [ServiceRoutine ρ] (service : Service ρ) (s : State) :
    Except Misuse (Served (Service ρ)) :=
  match service with
  | halt => .ok { reply := .ok .halt, server := halt, state := s }
  | routine r => do
    let served ← ServiceRoutine.call r s
    return { reply := served.reply, server := routine served.server, state := served.state }

/-! ## Tables -/

structure TrapTable (ρ : Type) where
  services : Vector (Option (Service ρ)) 256

namespace TrapTable

variable {ρ : Type}

/-- No service at all: every TRAP fails as unregistered. -/
def empty : TrapTable ρ where
  services := Vector.replicate 256 none

def get? (table : TrapTable ρ) (vector : Byte) : Option (Service ρ) :=
  table.services[vector.toFin]

def set (table : TrapTable ρ) (vector : Byte) (service : Option (Service ρ)) : TrapTable ρ where
  services := table.services.set vector.toNat service vector.isLt

/-- Gives `vector` a service, in place of the one it had. -/
def register (table : TrapTable ρ) (vector : Byte) (service : Service ρ) : TrapTable ρ :=
  table.set vector (some service)

/-- Takes the service of `vector` out of the table and hands it back as it is. -/
def unregister (table : TrapTable ρ) (vector : Byte) : Option (Service ρ) × TrapTable ρ :=
  (table.get? vector, table.set vector none)

/-- Moves the service of one vector to another, and says whether there was one. -/
def move (table : TrapTable ρ) (source target : Byte) : Bool × TrapTable ρ :=
  match table.unregister source with
  | (some service, rest) => (true, rest.register target service)
  | (none, rest) => (false, rest)

def withHalt : TrapTable ρ :=
  empty.register StandardTrap.halt.vector .halt

def isRegistered (table : TrapTable ρ) (vector : Byte) : Bool :=
  (table.get? vector).isSome

/-- The vectors that are served, in ascending order. -/
def vectors (table : TrapTable ρ) : List Byte :=
  ((List.range 256).map (BitVec.ofNat 8)).filter table.isRegistered

/-- The vectors as a list of quoted hexadecimal numerals. -/
def text (table : TrapTable ρ) : String :=
  "[" ++ ", ".intercalate (table.vectors.map fun v => "\"" ++ Numeral.hex 2 v.toNat ++ "\"") ++ "]"

instance [ServiceRoutine ρ] : TrapHandler (TrapTable ρ) where
  invoke vector table s :=
    match table.get? vector with
    | none => .ok { reply := .error .unregistered, server := table, state := s }
    | some service => do
      let served ← service.call s
      return { reply := served.reply, server := table.set vector (some served.server),
               state := served.state }

/-! ## Laws -/

@[simp] theorem get?_empty (v : Byte) : (empty : TrapTable ρ).get? v = none := by
  simp [get?, empty]

theorem get?_set (table : TrapTable ρ) (v v' : Byte) (service : Option (Service ρ)) :
    (table.set v service).get? v' = if v' = v then service else table.get? v' := by
  simp only [get?, set, Fin.getElem_fin, BitVec.val_toFin, Vector.getElem_set]
  by_cases h : v' = v
  · simp [h]
  · have hn : v.toNat ≠ v'.toNat := fun e => h (BitVec.eq_of_toNat_eq e.symm)
    simp [h, hn]

theorem get?_register (table : TrapTable ρ) (vector : Byte) (service : Service ρ) :
    (table.register vector service).get? vector = some service := by
  rw [register, get?_set, if_pos rfl]

@[simp] theorem mem_vectors {table : TrapTable ρ} {v : Byte} :
    v ∈ table.vectors ↔ table.isRegistered v = true := by
  rw [vectors, List.mem_filter]
  refine and_iff_right ?_
  exact List.mem_map.2 ⟨v.toNat, List.mem_range.2 v.isLt, by simp⟩

end TrapTable

end Lc3
