import Lc3.Error

/-! # Effective addresses

An offset is added to an address as an integer. Nothing wraps around: a sum below 0 or above
`0xFFFF` is an error that carries the sum.
-/

namespace Lc3
set_option autoImplicit false

/-- The address `offset` cells after `base`, or before it if `offset` is negative. -/
def effectiveAddress (base : Word) (offset : Int) : Except ExecutionError Word :=
  if 0 ≤ base.toNat + offset ∧ (base.toNat + offset).toNat < 65536 then
    .ok (BitVec.ofNat 16 (base.toNat + offset).toNat)
  else
    .error (.addressOutOfRange (base.toNat + offset))

theorem effectiveAddress_eq_ok_iff {base a : Word} {offset : Int} :
    effectiveAddress base offset = .ok a ↔ (a.toNat : Int) = base.toNat + offset := by
  unfold effectiveAddress
  have ha := a.isLt
  split
  · rename_i h
    rw [Except.ok.injEq, ← BitVec.toNat_inj, BitVec.toNat_ofNat, Nat.mod_eq_of_lt h.2]
    omega
  · rename_i h
    constructor
    · intro e
      cases e
    · intro e
      exact absurd ⟨by omega, by omega⟩ h

theorem effectiveAddress_eq_error_iff {base : Word} {offset : Int} {e : ExecutionError} :
    effectiveAddress base offset = .error e ↔
      ¬(0 ≤ base.toNat + offset ∧ base.toNat + offset < 65536) ∧
        e = .addressOutOfRange (base.toNat + offset) := by
  unfold effectiveAddress
  split
  · rename_i h
    constructor
    · intro he
      cases he
    · intro he
      exact absurd ⟨h.1, by omega⟩ he.1
  · rename_i h
    rw [Except.error.injEq, eq_comm]
    exact (and_iff_right fun hr => h ⟨hr.1, by omega⟩).symm

end Lc3
