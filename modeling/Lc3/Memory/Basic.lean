import Lc3.Error

/-! # Memory

One word for every address, so a read never fails, and an optional undo log.

* `read`, `write`: a single cell.
* `load`: a block of words, refused as a whole if it does not fit; `clear`: all cells zero.
* `openLog`, `closeLog`, `rollBack`: while the log is open every write records the word that it
  overwrote. Closing the log keeps the writes, rolling back restores the overwritten words, the
  latest first. `Memory.zeroed` has no open log.
* `Edit`: the changes that a user of a memory can make, as data.

The log is no content: two memories count as equal if their cells are equal. A block is written
cell by cell, so a log records it like single writes.
-/

namespace Lc3
set_option autoImplicit false

/-- The memory of the machine. The log holds pairs of an address and the word that was
overwritten there, the latest first. -/
structure Memory where
  cells : Vector Word 65536
  undoLog : Option (List (Word × Word))

namespace Memory

def size : Nat := 65536

def programOrigin : Word := 0x3000

def zeroed : Memory where
  cells := Vector.replicate 65536 0
  undoLog := none

instance : BEq Memory where
  beq m₁ m₂ := m₁.cells == m₂.cells

/-! ## Cells -/

def read (m : Memory) (a : Word) : Word :=
  m.cells[a.toFin]

/-- Puts `w` into the cell at `a`, and records its former word if the log is open. -/
def write : Memory → Word → Word → Memory
  | ⟨cells, none⟩, a, w => ⟨cells.set a.toNat w a.isLt, none⟩
  | ⟨cells, some log⟩, a, w =>
    let former := cells[a.toFin]
    ⟨cells.set a.toNat w a.isLt, some ((a, former) :: log)⟩

/-! ## Blocks -/

def writeBlock : Memory → Word → List Word → Memory
  | m, _, [] => m
  | m, a, w :: ws => writeBlock (m.write a w) (a + 1) ws

def Fits (a : Word) (length : Nat) : Prop :=
  a.toNat + length ≤ size

instance (a : Word) (length : Nat) : Decidable (Fits a length) :=
  inferInstanceAs (Decidable (_ ≤ _))

/-- Copies `ws` to the cells from `a` on, or refuses if they do not fit. -/
def load (m : Memory) (a : Word) (ws : List Word) : Except LoadError Memory :=
  if Fits a ws.length then
    .ok (m.writeBlock a ws)
  else
    .error (.exceedsAddressSpace a ws.length)

def entries (cells : Vector Word 65536) : List (Word × Word) :=
  (List.finRange 65536).map fun i => (BitVec.ofFin i, cells[i])

/-- Zero in every cell; an open log stays open and records all of them. -/
def clear : Memory → Memory
  | ⟨_, none⟩ => zeroed
  | ⟨cells, some log⟩ => ⟨zeroed.cells, some (entries cells ++ log)⟩

/-! ## Undo log -/

/-- Starts to record overwritten words, forgetting those of a log that is still open. -/
def openLog (m : Memory) : Memory :=
  { m with undoLog := some [] }

/-- Stops recording and keeps the writes. -/
def closeLog (m : Memory) : Memory :=
  { m with undoLog := none }

/-- Puts the recorded words back into their cells, in the order of the list. -/
def restore (cells : Vector Word 65536) (log : List (Word × Word)) : Vector Word 65536 :=
  log.foldl (fun cells entry => cells.set entry.1.toNat entry.2 entry.1.isLt) cells

/-- Stops recording and undoes the recorded writes, the latest first. Without an open log
nothing changes. -/
def rollBack : Memory → Memory
  | ⟨cells, none⟩ => ⟨cells, none⟩
  | ⟨cells, some log⟩ => ⟨restore cells log, none⟩

/-! ## Edits -/

inductive Edit where
  | write (address word : Word)
  | load (address : Word) (words : List Word)
  | clear

def Edit.perform : Edit → Memory → Except LoadError Memory
  | write a w, m => .ok (m.write a w)
  | load a ws, m => m.load a ws
  | clear, m => .ok m.clear

/-- Makes the change. One that is refused changes nothing. -/
def Edit.apply (e : Edit) (m : Memory) : Memory :=
  match e.perform m with
  | .ok changed => changed
  | .error _ => m

/-! ## Text -/

def used (m : Memory) : Nat :=
  m.cells.countP (· ≠ 0)

def text (m : Memory) : String :=
  s!"Memory: {size} words, {m.used} non-zero"

end Memory

end Lc3
