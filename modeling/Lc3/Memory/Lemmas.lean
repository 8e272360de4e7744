import Lc3.Memory.Basic

/-! # Laws of the memory

What each operation does to the cells and to the log.

* `read_write`: a write changes one cell.
* `load_eq_ok_iff`: a block is loaded iff it fits.
* `read_writeBlock`: a block changes the cells that it covers.
* `clear_eq_zeroed`: a cleared memory without an open log is a new one.
* `undoLog_apply_none`: an edit does not open the log.
* `rollBack_write`, `rollBack_apply`: while the log is open, neither a write nor any other edit
  changes what rolling back restores.
* `rollBack_applyAll`, `rollBack_edits`: rolling back after any edits restores the memory in which
  the log was opened.
-/

namespace Lc3.Memory
set_option autoImplicit false

/-! ## Single cells -/

theorem ext_read {m₁ m₂ : Memory} (hc : ∀ a, m₁.read a = m₂.read a)
    (hl : m₁.undoLog = m₂.undoLog) : m₁ = m₂ := by
  obtain ⟨c₁, l₁⟩ := m₁
  obtain ⟨c₂, l₂⟩ := m₂
  simp only [mk.injEq]
  refine ⟨Vector.ext fun i hi => ?_, hl⟩
  exact hc (BitVec.ofFin ⟨i, hi⟩)

@[simp] theorem read_zeroed (a : Word) : zeroed.read a = 0 := by
  simp [read, zeroed]

theorem cells_write (m : Memory) (a w : Word) :
    (m.write a w).cells = m.cells.set a.toNat w a.isLt := by
  obtain ⟨cells, _ | log⟩ := m <;> rfl

theorem undoLog_write (m : Memory) (a w : Word) :
    (m.write a w).undoLog = m.undoLog.map ((a, m.read a) :: ·) := by
  obtain ⟨cells, _ | log⟩ := m <;> rfl

theorem read_write (m : Memory) (a b w : Word) :
    (m.write a w).read b = if b = a then w else m.read b := by
  simp only [read, cells_write, Fin.getElem_fin, BitVec.val_toFin, Vector.getElem_set]
  by_cases h : b = a
  · simp [h]
  · have : a.toNat ≠ b.toNat := fun e => h (BitVec.eq_of_toNat_eq e.symm)
    simp [h, this]

@[simp] theorem read_write_self (m : Memory) (a w : Word) : (m.write a w).read a = w := by
  simp [read_write]

theorem read_write_of_ne (m : Memory) {a b : Word} (w : Word) (h : b ≠ a) :
    (m.write a w).read b = m.read b := by
  simp [read_write, h]

/-! ## Blocks -/

theorem load_eq_ok_iff {m m' : Memory} {a : Word} {ws : List Word} :
    m.load a ws = .ok m' ↔ Fits a ws.length ∧ m' = m.writeBlock a ws := by
  unfold load
  split
  · rename_i h
    simp [h, eq_comm]
  · rename_i h
    simp [h]

/-- A block that is no longer than the memory does not overwrite itself: cell `b` gets the word at
its distance from the start, if the block has one there. -/
theorem read_writeBlock (m : Memory) (a b : Word) {ws : List Word} (h : ws.length ≤ size) :
    (m.writeBlock a ws).read b = ws[(b - a).toNat]?.getD (m.read b) := by
  induction ws generalizing m a with
  | nil => rfl
  | cons w ws ih =>
    rw [List.length_cons, size] at h
    rw [writeBlock, ih (m.write a w) (a + 1) (by rw [size]; omega)]
    by_cases hb : b = a
    · subst hb
      have hlast : (b - (b + 1)).toNat = 65535 := by bv_omega
      rw [hlast, List.getElem?_eq_none (by omega), BitVec.sub_self]
      exact read_write_self m b w
    · have hnext : (b - a).toNat = (b - (a + 1)).toNat + 1 := by bv_omega
      rw [hnext, List.getElem?_cons_succ, read_write_of_ne m w hb]

theorem undoLog_writeBlock_none {m : Memory} (a : Word) (ws : List Word)
    (h : m.undoLog = none) : (m.writeBlock a ws).undoLog = none := by
  induction ws generalizing m a with
  | nil => exact h
  | cons w ws ih => exact ih (a + 1) (by rw [undoLog_write, h]; rfl)

theorem isSome_undoLog_writeBlock {m : Memory} (a : Word) (ws : List Word)
    (h : m.undoLog.isSome) : (m.writeBlock a ws).undoLog.isSome := by
  induction ws generalizing m a with
  | nil => exact h
  | cons w ws ih => exact ih (a + 1) (by rw [undoLog_write, Option.isSome_map]; exact h)

/-! ## Without a log -/

theorem undoLog_load_none {m m' : Memory} {a : Word} {ws : List Word} (h : m.load a ws = .ok m')
    (hm : m.undoLog = none) : m'.undoLog = none := by
  obtain ⟨-, rfl⟩ := load_eq_ok_iff.1 h
  exact undoLog_writeBlock_none a ws hm

theorem clear_eq_zeroed {m : Memory} (h : m.undoLog = none) : m.clear = zeroed := by
  obtain ⟨cells, log⟩ := m
  cases h
  rfl

theorem undoLog_perform_none {m m' : Memory} {e : Edit} (h : e.perform m = .ok m')
    (hm : m.undoLog = none) : m'.undoLog = none := by
  cases e with
  | write a w =>
    cases h
    exact undoLog_writeBlock_none a [w] hm
  | load a ws => exact undoLog_load_none h hm
  | clear =>
    cases h
    rw [clear_eq_zeroed hm]
    rfl

theorem undoLog_apply_none {m : Memory} (e : Edit) (hm : m.undoLog = none) :
    (e.apply m).undoLog = none := by
  unfold Edit.apply
  cases h : e.perform m with
  | ok changed => exact undoLog_perform_none h hm
  | error cause => exact hm

theorem rollBack_eq_self {m : Memory} (h : m.undoLog = none) : m.rollBack = m := by
  obtain ⟨cells, log⟩ := m
  cases h
  rfl

/-! ## Rolling back -/

@[simp] theorem undoLog_rollBack (m : Memory) : m.rollBack.undoLog = none := by
  obtain ⟨cells, _ | log⟩ := m <;> rfl

@[simp] theorem rollBack_openLog (m : Memory) : m.openLog.rollBack = m.closeLog := rfl

theorem closeLog_eq_self {m : Memory} (h : m.undoLog = none) : m.closeLog = m := by
  obtain ⟨cells, log⟩ := m
  cases h
  rfl

/-- The word that a write records is the one that it overwrote, so undoing it first leaves what
was there before it. -/
theorem rollBack_write {m : Memory} (a w : Word) (h : m.undoLog.isSome) :
    (m.write a w).rollBack = m.rollBack := by
  obtain ⟨cells, log⟩ := m
  cases log with
  | none => cases h
  | some log => simp [write, rollBack, restore]

theorem restore_cons (cells : Vector Word 65536) (a w : Word) (log : List (Word × Word)) :
    restore cells ((a, w) :: log) = restore (cells.set a.toNat w a.isLt) log := rfl

theorem get_restore_of_not_mem (word : Fin 65536 → Word) (cells : Vector Word 65536)
    {l : List (Fin 65536)} {j : Fin 65536} (hj : j ∉ l) :
    (restore cells (l.map fun i => (BitVec.ofFin i, word i))).get j = cells.get j := by
  induction l generalizing cells with
  | nil => rfl
  | cons i l ih =>
    rw [List.mem_cons, not_or] at hj
    have hij : i.val ≠ j.val := fun h => hj.1 (Fin.ext h.symm)
    rw [List.map_cons, restore_cons, ih _ hj.2]
    exact Vector.getElem_set_ne i.isLt j.isLt hij

/-- A cell that is recorded gets its recorded word, whatever is restored before and after it. -/
theorem get_restore_of_mem (word : Fin 65536 → Word) (cells : Vector Word 65536)
    {l : List (Fin 65536)} {j : Fin 65536} (hj : j ∈ l) :
    (restore cells (l.map fun i => (BitVec.ofFin i, word i))).get j = word j := by
  induction l generalizing cells with
  | nil => cases hj
  | cons i l ih =>
    rw [List.map_cons, restore_cons]
    by_cases hl : j ∈ l
    · exact ih _ hl
    · have hji : j = i := (List.mem_cons.1 hj).resolve_right hl
      subst hji
      rw [get_restore_of_not_mem word _ hl]
      exact Vector.getElem_set_self j.isLt

theorem restore_entries (saved cells : Vector Word 65536) :
    restore cells (entries saved) = saved := by
  refine Vector.ext fun i hi => ?_
  exact get_restore_of_mem saved.get cells (List.mem_finRange (⟨i, hi⟩ : Fin 65536))

theorem rollBack_clear {m : Memory} (h : m.undoLog.isSome) : m.clear.rollBack = m.rollBack := by
  obtain ⟨cells, log⟩ := m
  cases log with
  | none => cases h
  | some log =>
    have ha : restore zeroed.cells (entries cells ++ log) = restore cells log := by
      rw [restore, List.foldl_append]
      exact congrArg (restore · log) (restore_entries cells zeroed.cells)
    simp only [clear, rollBack, ha]

theorem isSome_undoLog_clear {m : Memory} (h : m.undoLog.isSome) : m.clear.undoLog.isSome := by
  obtain ⟨cells, log⟩ := m
  cases log with
  | none => cases h
  | some log => rfl

theorem rollBack_writeBlock {m : Memory} (a : Word) (ws : List Word) (h : m.undoLog.isSome) :
    (m.writeBlock a ws).rollBack = m.rollBack := by
  induction ws generalizing m a with
  | nil => rfl
  | cons w ws ih =>
    have hw : (m.write a w).undoLog.isSome := by
      rw [undoLog_write, Option.isSome_map]
      exact h
    rw [writeBlock, ih (a + 1) hw, rollBack_write a w h]

theorem isSome_undoLog_apply {m : Memory} (e : Edit) (h : m.undoLog.isSome) :
    (e.apply m).undoLog.isSome := by
  cases e with
  | write a w => exact isSome_undoLog_writeBlock a [w] h
  | load a ws =>
    simp only [Edit.apply, Edit.perform, load]
    by_cases hf : Fits a ws.length
    · rw [if_pos hf]
      exact isSome_undoLog_writeBlock a ws h
    · rw [if_neg hf]
      exact h
  | clear => exact isSome_undoLog_clear h

theorem rollBack_apply {m : Memory} (e : Edit) (h : m.undoLog.isSome) :
    (e.apply m).rollBack = m.rollBack := by
  cases e with
  | write a w => exact rollBack_write a w h
  | load a ws =>
    simp only [Edit.apply, Edit.perform, load]
    by_cases hf : Fits a ws.length
    · rw [if_pos hf]
      exact rollBack_writeBlock a ws h
    · rw [if_neg hf]
  | clear => exact rollBack_clear h

/-- However many edits are recorded, overlapping or repeated, rolling back reaches what it would
have reached before them. -/
theorem rollBack_applyAll {m : Memory} (es : List Edit) (h : m.undoLog.isSome) :
    (es.foldl (fun m e => e.apply m) m).rollBack = m.rollBack := by
  induction es generalizing m with
  | nil => rfl
  | cons e es ih => rw [List.foldl_cons, ih (isSome_undoLog_apply e h), rollBack_apply e h]

/-- Any edits of any number, overlapping or repeated, are undone together. -/
theorem rollBack_edits (m : Memory) (es : List Edit) :
    (es.foldl (fun m e => e.apply m) m.openLog).rollBack = m.closeLog :=
  (rollBack_applyAll es rfl).trans (rollBack_openLog m)

end Lc3.Memory
