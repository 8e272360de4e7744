import Lc3.Field.Basic

/-! # Laws of bit fields

A field that lies inside of the word is read without failure, and is the run of bits that
`BitVec.extractLsb'` cuts out.

* `unsigned_eq_ok`: its value, as a number that keeps the field's width.
* `signed_eq_ok`: a field of at most 15 bits as a two's complement number of its own width.
* `byte_eq_ok`: a field of at most 8 bits as a byte.
* `signExtend_idem`: a bit pattern that was extended is not changed by extending it again.
-/

namespace Lc3.Field
set_option autoImplicit false

/-! ## Unsigned fields -/

theorem unsigned_eq_ok {word : Word} {count position : Nat} (hc : 0 < count) (hp : 0 < position)
    (hf : count + position ≤ 17) :
    unsigned word count position = .ok ((word.extractLsb' (position - 1) count).setWidth 16) := by
  unfold unsigned
  rw [if_neg (by omega), if_neg (by omega)]

theorem toNat_setWidth_field {count width : Nat} (field : BitVec count) (h : count ≤ width) :
    (field.setWidth width).toNat = field.toNat := by
  rw [BitVec.toNat_setWidth]
  exact Nat.mod_eq_of_lt (Nat.lt_of_lt_of_le field.isLt (Nat.pow_le_pow_right (by omega) h))

theorem byte_eq_ok {word : Word} {count position : Nat} (purpose : String) (hc : 0 < count)
    (h8 : count ≤ 8) (hp : 0 < position) (hf : count + position ≤ 17) :
    byte word count position purpose =
      .ok ((word.extractLsb' (position - 1) count).setWidth 8) := by
  have hlt : ((word.extractLsb' (position - 1) count).setWidth 16).toNat < 256 := by
    rw [toNat_setWidth_field _ (by omega)]
    exact Nat.lt_of_lt_of_le (BitVec.isLt _) (Nat.pow_le_pow_right (by omega) h8)
  unfold byte
  rw [unsigned_eq_ok hc hp hf]
  refine (if_pos hlt).trans ?_
  refine congrArg Except.ok (BitVec.eq_of_toNat_eq ?_)
  rw [BitVec.toNat_setWidth, toNat_setWidth_field _ (by omega), BitVec.toNat_setWidth]

theorem flag_eq_ok {word : Word} {position : Nat} (hp : 0 < position) (hf : position ≤ 16) :
    flag word position = .ok (word.getLsbD (position - 1)) := by
  unfold flag
  rw [unsigned_eq_ok (by omega) hp (by omega)]
  refine congrArg Except.ok ?_
  have hb : (word.extractLsb' (position - 1) 1).setWidth 16 =
      if word.getLsbD (position - 1) then 1#16 else 0#16 := by
    ext i hi
    cases i with
    | zero =>
      cases h : word.getLsbD (position - 1) <;> simp [h]
    | succ i => cases h : word.getLsbD (position - 1) <;> simp
  rw [hb]
  cases word.getLsbD (position - 1) <;> rfl

/-! ## Signed fields -/

theorem signExtend_setWidth {width : Nat} (field : BitVec width) (h0 : 0 < width)
    (h1 : width < 16) : signExtend (field.setWidth 16) width = .ok (field.signExtend 16) := by
  have hb : (field.setWidth 16).getLsbD (width - 1) = field.msb := by
    rw [BitVec.getLsbD_setWidth, BitVec.msb_eq_getLsbD_last, decide_eq_true (by omega)]
    rfl
  have ones : ∀ j, (h : j < 16) → (0xFFFF#16)[j] = true := by decide
  unfold signExtend
  rw [if_pos ⟨h0, h1⟩, hb]
  refine congrArg Except.ok (BitVec.eq_of_getElem_eq fun i hi => ?_)
  cases hm : field.msb <;> by_cases hw : i < width <;>
    simp [BitVec.getElem_signExtend, hm, hw, BitVec.getLsbD_of_ge, Nat.not_lt.1, ones]

theorem signed_eq_ok {word : Word} {count position : Nat} (hc : 0 < count) (h15 : count < 16)
    (hp : 0 < position) (hf : count + position ≤ 17) :
    signed word count position = .ok (word.extractLsb' (position - 1) count).toInt := by
  have he := signExtend_setWidth (word.extractLsb' (position - 1) count) hc h15
  unfold signed
  rw [unsigned_eq_ok hc hp hf]
  refine (congrArg (· >>= fun extended => pure extended.toInt) he).trans ?_
  exact congrArg Except.ok (BitVec.toInt_signExtend_of_le (by omega))

theorem signExtend_eq_ok_iff {bits extended : Word} {width : Nat} :
    signExtend bits width = .ok extended ↔
      (0 < width ∧ width < 16) ∧
        extended = if bits.getLsbD (width - 1) then bits ||| (0xFFFF#16 <<< width) else bits := by
  unfold signExtend
  by_cases h : 0 < width ∧ width < 16
  · rw [if_pos h, Except.ok.injEq, eq_comm]
    exact (and_iff_right h).symm
  · rw [if_neg h]
    refine ⟨?_, fun e => absurd e.1 h⟩
    intro e
    cases e

theorem signExtend_idem {bits extended : Word} {width : Nat}
    (h : signExtend bits width = .ok extended) : signExtend extended width = .ok extended := by
  obtain ⟨hw, he⟩ := signExtend_eq_ok_iff.1 h
  refine signExtend_eq_ok_iff.2 ⟨hw, ?_⟩
  cases hb : bits.getLsbD (width - 1) with
  | false =>
    rw [hb, if_neg (by decide)] at he
    rw [he, hb, if_neg (by decide)]
  | true =>
    rw [hb, if_pos rfl] at he
    have ht : extended.getLsbD (width - 1) = true := by
      rw [he, BitVec.getLsbD_or, hb]
      rfl
    rw [ht, if_pos rfl, he, BitVec.or_assoc, BitVec.or_self]

end Lc3.Field
