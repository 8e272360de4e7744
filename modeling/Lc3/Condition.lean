import Lc3.Word

/-! # The condition code

Exactly one of negative, zero and positive holds at any time: the sign of the last value that an
arithmetic or load instruction wrote. BR tests it against its three bits.
-/

namespace Lc3
set_option autoImplicit false

inductive Condition where
  | negative
  | zero
  | positive
deriving DecidableEq

namespace Condition

def ofWord (w : Word) : Condition :=
  if w.toInt < 0 then .negative
  else if w.toInt = 0 then .zero
  else .positive

/-- Whether a branch with the bits `n`, `z` and `p` is taken under this condition. -/
def selectedBy (n z p : Bool) : Condition → Bool
  | negative => n
  | zero => z
  | positive => p

def code : Condition → Nat
  | positive => 1
  | zero => 2
  | negative => 4

def name : Condition → String
  | negative => "Neg"
  | zero => "Zero"
  | positive => "Pos"

theorem ofWord_eq_negative_iff (w : Word) : ofWord w = .negative ↔ w.toInt < 0 := by
  unfold ofWord
  split
  · simp_all
  · split <;> simp_all

theorem ofWord_eq_zero_iff (w : Word) : ofWord w = .zero ↔ w.toInt = 0 := by
  unfold ofWord
  split
  · simp; omega
  · split <;> simp_all

theorem ofWord_eq_positive_iff (w : Word) : ofWord w = .positive ↔ 0 < w.toInt := by
  unfold ofWord
  split
  · simp; omega
  · split
    · simp; omega
    · simp; omega

/-- A branch is taken on a result iff one of its bits names the sign of that result. -/
theorem selectedBy_ofWord (n z p : Bool) (w : Word) :
    selectedBy n z p (ofWord w) = true ↔
      (n = true ∧ w.toInt < 0) ∨ (z = true ∧ w.toInt = 0) ∨ (p = true ∧ 0 < w.toInt) := by
  unfold ofWord
  split
  · grind [selectedBy]
  · split <;> grind [selectedBy]

end Condition

end Lc3
