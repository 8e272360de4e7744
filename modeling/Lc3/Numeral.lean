/-! # Numerals with a fixed base

Texts of natural numbers in a given base, with a least number of digits. Longer numbers keep all
their digits: padding never cuts.
-/

namespace Lc3.Numeral
set_option autoImplicit false

/-- The digits of `n` in `base`, most significant first and letters in upper case, with zeros in
front up to `width` digits. -/
def digits (base width n : Nat) : List Char :=
  let significant := (Nat.toDigits base n).map Char.toUpper
  List.replicate (width - significant.length) '0' ++ significant

/-- Hexadecimal text with its mark, such as `0x0ABC` at width 4. -/
def hex (width n : Nat) : String :=
  "0x" ++ String.ofList (digits 16 width n)

/-- Binary digits without a mark, such as `011` at width 3. -/
def binary (width n : Nat) : String :=
  String.ofList (digits 2 width n)

theorem le_length_digits (base width n : Nat) : width ≤ (digits base width n).length := by
  simp only [digits, List.length_append, List.length_replicate]
  omega

end Lc3.Numeral
