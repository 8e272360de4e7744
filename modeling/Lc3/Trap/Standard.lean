import Lc3.Word

/-! # The standard trap vectors

The vectors that have a conventional service, with their names. A machine gives a meaning only to
those that its trap handler knows.
-/

namespace Lc3
set_option autoImplicit false

inductive StandardTrap where
  /-- reads a character into R0 -/
  | getc
  /-- writes the character in R0 -/
  | out
  /-- writes the string that R0 points to, one character in each word -/
  | puts
  /-- prompts for a character and reads it into R0 -/
  | input
  /-- writes the string that R0 points to, two characters in each word -/
  | putsp
  | halt
deriving DecidableEq

namespace StandardTrap

def vector : StandardTrap → Byte
  | getc => 0x20
  | out => 0x21
  | puts => 0x22
  | input => 0x23
  | putsp => 0x24
  | halt => 0x25

/-- The standard trap of a vector, if it has one. -/
def ofVector? (vector : Byte) : Option StandardTrap :=
  match vector.toNat with
  | 0x20 => some .getc
  | 0x21 => some .out
  | 0x22 => some .puts
  | 0x23 => some .input
  | 0x24 => some .putsp
  | 0x25 => some .halt
  | _ => none

def name : StandardTrap → String
  | getc => "Getc"
  | out => "Out"
  | puts => "Puts"
  | input => "In"
  | putsp => "Putsp"
  | halt => "Halt"

theorem ofVector?_vector (t : StandardTrap) : ofVector? t.vector = some t := by
  cases t <;> rfl

theorem ofVector?_eq_some_iff {vector : Byte} {t : StandardTrap} :
    ofVector? vector = some t ↔ vector = t.vector := by
  constructor
  · intro h
    unfold ofVector? at h
    split at h
    case h_7 => cases h
    all_goals
      rename_i hv
      cases h
      exact BitVec.eq_of_toNat_eq hv
  · rintro rfl
    exact ofVector?_vector t

end StandardTrap

end Lc3
