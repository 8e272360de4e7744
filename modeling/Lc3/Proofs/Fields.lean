import Lc3.Proofs.Contracts

/-! # Fields as numbers

A field is cut out of a word by division and remainder, and a signed field is the only number of its
range with the same remainder. Which fields are refused, and with which cause, depends on count and
position alone.

* `Field.Inside`: the fields that exist.
* `unsigned_eq_error_iff`, `exists_unsigned`: the refusals, and the values of all other fields.
* `Field.inWords`, `inWords_eq`: the same field by shift and mask in words of fixed width, where any
  step that overflows would show. None does.
* `unsigned_tiles`: neighbouring fields are the digits of the field that they make up.
* `getLsbD_signExtend`: sign extension bit by bit; bits above the field are kept, not cleared.
* `signed_eq_error_iff`, `exists_signed`: signed fields, which add one refusal of their own.
* `fields_are_numbers`: all of this for every word, count and position.
-/

namespace Lc3
set_option autoImplicit false
open Reference

/-! ## Numbers -/

namespace Reference

/-- A field is its lower part plus the upper one shifted to where that begins. -/
theorem bits_add (w : Word) (low count count' : Nat) :
    bits w low (count + count') = bits w low count + 2 ^ count * bits w (low + count) count' := by
  rw [bits, bits, bits, Nat.pow_add, Nat.mod_mul, Nat.div_div_eq_div_mul, ← Nat.pow_add]

theorem bits_lt_size (w : Word) (low count : Nat) : bits w low count < 2 ^ 16 := by
  calc
    bits w low count ≤ w.toNat / 2 ^ low := Nat.mod_le _ _
    _ ≤ w.toNat := Nat.div_le_self _ _
    _ < 2 ^ 16 := w.isLt

end Reference

/-- A number in two's complement is the only one of its range that is congruent to its bits. -/
theorem eq_toInt_iff {width : Nat} (hw : 0 < width) (field : BitVec width) (u : Int) :
    u = field.toInt ↔
      (-2 ^ (width - 1) ≤ u ∧ u < 2 ^ (width - 1)) ∧ u ≡ field.toNat [ZMOD 2 ^ width] := by
  have hlow : -2 ^ (width - 1) ≤ field.toInt := BitVec.le_toInt _
  have hhigh : field.toInt < 2 ^ (width - 1) := BitVec.toInt_lt
  have hmod : field.toInt ≡ field.toNat [ZMOD 2 ^ width] := by
    have h := Int.bmod_emod (x := (field.toNat : Int)) (m := 2 ^ width)
    rw [BitVec.toInt_eq_toNat_bmod]
    simpa [Int.ModEq] using h
  constructor
  · rintro rfl
    exact ⟨⟨hlow, hhigh⟩, hmod⟩
  · rintro ⟨hu, humod⟩
    have hpow : (2 : Int) ^ width = 2 * 2 ^ (width - 1) := by
      rw [← pow_succ', Nat.sub_add_cancel hw]
    have hdvd : (2 : Int) ^ width ∣ u - field.toInt := (hmod.trans humod.symm).dvd
    have habs : |u - field.toInt| < 2 ^ width := abs_lt.2 (by omega)
    exact sub_eq_zero.1 (Int.eq_zero_of_abs_lt_dvd hdvd habs)

/-! ## Refusals -/

namespace Misuse

/-- The text of the cause contains `part`. -/
def Says (cause : Misuse) (part : String) : Prop :=
  ∃ front back, cause.message = front ++ part ++ back

theorem emptyField_says (count position : Nat) :
    (emptyField count position).Says "empty field" := by
  refine ⟨"", ": count " ++ toString count ++ ", position " ++ toString position, ?_⟩
  have hfront : "empty field: count " = "empty field" ++ ": count " := rfl
  show "empty field: count " ++ toString count ++ ", position " ++ toString position = _
  rw [hfront, String.empty_append]
  simp only [String.append_assoc]

theorem wideField_says (count position : Nat) :
    (wideField count position).Says "does not fit" := by
  refine ⟨"field of " ++ toString count ++ " bits at position " ++ toString position ++ " ",
    " into u16", ?_⟩
  have hback : " does not fit into u16" = " " ++ "does not fit" ++ " into u16" := rfl
  show "field of " ++ toString count ++ " bits at position " ++ toString position ++
    " does not fit into u16" = _
  rw [hback]
  simp only [String.append_assoc]

end Misuse

namespace Field
variable {word : Word} {count position width : Nat}

/-- The field has bits, positions count from 1, and its highest bit is one of the word's. -/
def Inside (count position : Nat) : Prop :=
  0 < count ∧ 0 < position ∧ count + position - 1 ≤ 16

instance (count position : Nat) : Decidable (Inside count position) :=
  inferInstanceAs (Decidable (_ ∧ _))

theorem unsigned_eq_error_iff {cause : Misuse} :
    unsigned word count position = .error cause ↔
      (count = 0 ∨ position = 0) ∧ cause = .emptyField count position ∨
        (0 < count ∧ 0 < position ∧ 16 < count + position - 1) ∧
          cause = .wideField count position := by
  unfold unsigned
  by_cases hempty : count = 0 ∨ position = 0
  · rw [if_pos hempty, Except.error.injEq, eq_comm, and_iff_right hempty]
    exact (or_iff_left fun h => by omega).symm
  · rw [if_neg hempty, or_iff_right fun h => hempty h.1]
    by_cases hwide : count + position - 1 > 16
    · rw [if_pos hwide, Except.error.injEq, eq_comm]
      exact (and_iff_right (by omega)).symm
    · rw [if_neg hwide]
      exact iff_of_false (fun h => by cases h) fun h => hwide h.1.2.2

theorem exists_unsigned (word : Word) (h : Inside count position) :
    ∃ field, unsigned word count position = .ok field ∧
      field.toNat = bits word (position - 1) count := by
  obtain ⟨hc, hp, hf⟩ := h
  have hu : unsigned word count position = .ok _ := unsigned_eq_ok hc hp (by omega)
  exact ⟨_, hu, toNat_unsigned hu⟩

theorem inside_of_unsigned {field : Word} (h : unsigned word count position = .ok field) :
    Inside count position := by
  by_contra hout
  have hrefused : ∃ cause, unsigned word count position = .error cause := by
    by_cases hempty : count = 0 ∨ position = 0
    · exact ⟨_, unsigned_eq_error_iff.2 (.inl ⟨hempty, rfl⟩)⟩
    · have hwide : 0 < count ∧ 0 < position ∧ 16 < count + position - 1 := by
        unfold Inside at hout
        omega
      exact ⟨_, unsigned_eq_error_iff.2 (.inr ⟨hwide, rfl⟩)⟩
  obtain ⟨cause, hcause⟩ := hrefused
  cases h.symm.trans hcause

theorem unsigned_tiles (word : Word) {count' : Nat} (hc : 0 < count) (hc' : 0 < count')
    (h : Inside (count + count') position) :
    ∃ whole low high, unsigned word (count + count') position = .ok whole ∧
      unsigned word count position = .ok low ∧
      unsigned word count' (position + count) = .ok high ∧
      whole.toNat = low.toNat + 2 ^ count * high.toNat := by
  have hposition := h.2.1
  have hfits := h.2.2
  obtain ⟨whole, hwhole, ewhole⟩ := exists_unsigned word h
  obtain ⟨low, hlow, elow⟩ :=
    exists_unsigned word (show Inside count position from ⟨hc, hposition, by omega⟩)
  obtain ⟨high, hhigh, ehigh⟩ :=
    exists_unsigned word (show Inside count' (position + count) from ⟨hc', by omega, by omega⟩)
  refine ⟨whole, low, high, hwhole, hlow, hhigh, ?_⟩
  rw [ewhole, elow, ehigh, bits_add, Nat.sub_add_comm hposition]

/-! ## In words of fixed width -/

/-- Arithmetic in words of fixed width refuses a field, or one of its steps overflows. -/
inductive Breakdown where
  | misuse (cause : Misuse)
  | overflow

/-- The result of a step that overflows unless `fits` holds. -/
def checked {n : Nat} (fits : Prop) [Decidable fits] (result : BitVec n) :
    Except Breakdown (BitVec n) :=
  if fits then .ok result else .error .overflow

/-- The field of `count` bits from bit `low` on, bits counted from 0: shifted down, masked with
`count` ones and narrowed to 16 bits. -/
def masked (word : Word) (count low : Byte) : Except Breakdown Word := do
  let past ← checked (count.toNat < 32) (1#32 <<< count.toNat)
  let mask ← checked (1 ≤ past.toNat) (past - 1#32)
  let shifted ← checked (low.toNat < 32) (word.setWidth 32 >>> low.toNat)
  checked ((shifted &&& mask).toNat < 2 ^ 16) ((shifted &&& mask).setWidth 16)

/-- A field with every step in 8, 16 or 32 bits. -/
def inWords (word : Word) (count position : Byte) : Except Breakdown Word :=
  if count = 0 ∨ position = 0 then
    .error (.misuse (.emptyField count.toNat position.toNat))
  else do
    let past ← checked ((count.setWidth 32).toNat + (position.setWidth 32).toNat < 2 ^ 32)
      (count.setWidth 32 + position.setWidth 32)
    let highest ← checked (1 ≤ past.toNat) (past - 1#32)
    if highest.toNat ≤ 16 then
      let low ← checked (1 ≤ position.toNat) (position - 1#8)
      masked word count low
    else
      .error (.misuse (.wideField count.toNat position.toNat))

theorem checked_eq_ok {n : Nat} {fits : Prop} [Decidable fits] (result : BitVec n) (h : fits) :
    checked fits result = .ok result :=
  if_pos h

theorem toNat_one_shiftLeft (h : count < 32) : (1#32 <<< count).toNat = 2 ^ count := by
  rw [BitVec.toNat_shiftLeft, BitVec.toNat_one (by decide), Nat.one_shiftLeft,
    Nat.mod_eq_of_lt (Nat.pow_lt_pow_right (by decide) h)]

theorem toNat_and_mask (word : Word) (low : Nat) (h : count < 32) :
    (word.setWidth 32 >>> low &&& (1#32 <<< count - 1#32)).toNat = bits word low count := by
  have hle : 1#32 ≤ 1#32 <<< count := by
    rw [BitVec.le_def, toNat_one_shiftLeft h]
    exact Nat.one_le_two_pow
  have hmask : (1#32 <<< count - 1#32).toNat = 2 ^ count - 1 := by
    rw [BitVec.toNat_sub_of_le hle, toNat_one_shiftLeft h]
    rfl
  rw [BitVec.toNat_and, hmask, BitVec.toNat_ushiftRight, toNat_setWidth_field _ (by decide),
    Nat.shiftRight_eq_div_pow, Nat.and_two_pow_sub_one_eq_mod]
  rfl

theorem masked_eq_ok (word : Word) {count low : Byte} (hc : count.toNat < 32)
    (hl : low.toNat < 32) :
    masked word count low = .ok (BitVec.ofNat 16 (bits word low.toNat count.toNat)) := by
  have hone : 1 ≤ (1#32 <<< count.toNat).toNat := by
    rw [toNat_one_shiftLeft hc]
    exact Nat.one_le_two_pow
  have hmask := toNat_and_mask word low.toNat hc
  have hfits := bits_lt_size word low.toNat count.toNat
  rw [← hmask] at hfits
  simp only [masked, bind, Except.bind, checked_eq_ok _ hc, checked_eq_ok _ hone,
    checked_eq_ok _ hl, checked_eq_ok _ hfits]
  refine congrArg Except.ok (BitVec.eq_of_toNat_eq ?_)
  rw [BitVec.toNat_setWidth, BitVec.toNat_ofNat, hmask]

/-- Arithmetic in words comes to the same field or the same refusal; no step overflows. -/
theorem inWords_eq (word : Word) (count position : Byte) :
    inWords word count position =
      (unsigned word count.toNat position.toNat).mapError .misuse := by
  by_cases hempty : count = 0 ∨ position = 0
  · have hzero : count.toNat = 0 ∨ position.toNat = 0 :=
      hempty.imp (congrArg BitVec.toNat) (congrArg BitVec.toNat)
    rw [inWords, if_pos hempty, unsigned_eq_error_iff.2 (.inl ⟨hzero, rfl⟩)]
    rfl
  have hc : 0 < count.toNat := by bv_omega
  have hp : 1 ≤ position.toNat := by bv_omega
  have hsum : (count.setWidth 32).toNat + (position.setWidth 32).toNat < 2 ^ 32 := by bv_omega
  have hpast : 1 ≤ (count.setWidth 32 + position.setWidth 32).toNat := by bv_omega
  have hhighest : (count.setWidth 32 + position.setWidth 32 - 1#32).toNat =
      count.toNat + position.toNat - 1 := by bv_omega
  simp only [inWords, if_neg hempty, bind, Except.bind, checked_eq_ok _ hsum,
    checked_eq_ok _ hpast, checked_eq_ok _ hp, hhighest]
  by_cases hfits : count.toNat + position.toNat - 1 ≤ 16
  · have hlow : (position - 1#8).toNat = position.toNat - 1 := by bv_omega
    obtain ⟨field, hfield, hvalue⟩ := exists_unsigned word ⟨hc, hp, hfits⟩
    rw [hfield, if_pos hfits, masked_eq_ok word (by omega) (by omega), hlow, ← hvalue]
    exact congrArg Except.ok (BitVec.ofNat_toNat _ _)
  · have hwide : 0 < count.toNat ∧ 0 < position.toNat ∧ 16 < count.toNat + position.toNat - 1 :=
      ⟨hc, hp, Nat.lt_of_not_le hfits⟩
    rw [if_neg hfits, unsigned_eq_error_iff.2 (.inr ⟨hwide, rfl⟩)]
    rfl

/-! ## Sign extension -/

theorem signExtend_eq_error_iff {cause : Misuse} :
    signExtend word width = .error cause ↔
      ¬(1 ≤ width ∧ width ≤ 15) ∧ cause = .fieldWidth := by
  unfold signExtend
  by_cases h : 0 < width ∧ width < 16
  · rw [if_pos h]
    exact iff_of_false (fun e => by cases e) fun e => e.1 (by omega)
  · rw [if_neg h, Except.error.injEq, eq_comm]
    exact (and_iff_right (by omega)).symm

/-- From the sign bit up a set sign sets every bit; apart from that all bits stay. -/
theorem getLsbD_signExtend {extended : Word} (h : signExtend word width = .ok extended) {i : Nat}
    (hi : i < 16) :
    extended.getLsbD i = (word.getLsbD i || (word.getLsbD (width - 1) && decide (width ≤ i))) := by
  obtain ⟨-, rfl⟩ := signExtend_eq_ok_iff.1 h
  cases hsign : word.getLsbD (width - 1) with
  | false => simp
  | true =>
    have hones : ∀ j < 16, (0xFFFF#16).getLsbD j = true := by decide
    by_cases hle : width ≤ i
    · simp [hle, hi, hones (i - width) (by omega)]
    · simp [hle]

/-! ## Signed fields -/

theorem signed_of_unsigned {field : Word} (h : unsigned word count position = .ok field) :
    signed word count position = (signExtend field count).map BitVec.toInt := by
  rw [signed, h]
  simp only [bind, Except.bind]
  cases signExtend field count <;> rfl

theorem signed_eq_error_iff {cause : Misuse} :
    signed word count position = .error cause ↔
      unsigned word count position = .error cause ∨
        Inside count position ∧ count = 16 ∧ cause = .fieldWidth := by
  cases h : unsigned word count position with
  | error e =>
    have hsigned : signed word count position = .error e := by
      rw [signed, h]
      rfl
    have hout : ¬Inside count position := by
      intro hin
      obtain ⟨field, hfield, -⟩ := exists_unsigned word hin
      cases h.symm.trans hfield
    rw [hsigned, Except.error.injEq, Except.error.injEq]
    exact (or_iff_left fun hwhole => hout hwhole.1).symm
  | ok field =>
    have hin := inside_of_unsigned h
    have hwhole : ¬(1 ≤ count ∧ count ≤ 15) ↔ count = 16 := by
      unfold Inside at hin
      omega
    have hextend : signExtend field count = .error cause ↔ count = 16 ∧ cause = .fieldWidth := by
      rw [signExtend_eq_error_iff, hwhole]
    rw [signed_of_unsigned h, and_iff_right hin, ← hextend]
    cases signExtend field count with
    | error e => simp [Except.map]
    | ok extended => simp [Except.map]

theorem exists_signed (word : Word) (h : Inside count position) (hne : count ≠ 16) :
    ∃ field v, unsigned word count position = .ok field ∧ signed word count position = .ok v ∧
      ∀ u, u = v ↔
        (-2 ^ (count - 1) ≤ u ∧ u < 2 ^ (count - 1)) ∧ u ≡ field.toNat [ZMOD 2 ^ count] := by
  obtain ⟨field, hfield, hvalue⟩ := exists_unsigned word h
  obtain ⟨hc, hp, hfits⟩ := h
  refine ⟨field, _, hfield, signed_eq_ok hc (by omega) hp (by omega), fun u => ?_⟩
  rw [hvalue, ← toNat_extractLsb'_eq_bits]
  exact eq_toInt_iff hc _ u

/-! ## All fields -/

/-- A field without bits or at position 0 is refused first, then one that reaches past bit 16, and
every other one is the word divided and reduced by powers of two, which words of fixed width compute
without an overflow. Sign extension refuses other widths than 1 to 15. It keeps the bits of the field
and those that stand above it, and sets the latter if the sign is set. A signed field is refused as
its unsigned field is, or because it is the whole word; every other one is the only number of its
range that is congruent to the unsigned field. -/
theorem fields_are_numbers (word : Word) :
    (∀ count position,
      (unsigned word count position = .error (.emptyField count position) ↔
        count = 0 ∨ position = 0) ∧
      (unsigned word count position = .error (.wideField count position) ↔
        0 < count ∧ 0 < position ∧ 16 < count + position - 1) ∧
      (Misuse.emptyField count position).Says "empty field" ∧
      (Misuse.wideField count position).Says "does not fit" ∧
      (Inside count position → ∃ field, unsigned word count position = .ok field ∧
        field.toNat = word.toNat / 2 ^ (position - 1) % 2 ^ count)) ∧
    (∀ count position : Byte, inWords word count position =
      (unsigned word count.toNat position.toNat).mapError .misuse) ∧
    (∀ count count' position, 0 < count → 0 < count' → Inside (count + count') position →
      ∃ whole low high, unsigned word (count + count') position = .ok whole ∧
        unsigned word count position = .ok low ∧
        unsigned word count' (position + count) = .ok high ∧
        whole.toNat = low.toNat + 2 ^ count * high.toNat) ∧
    (∀ width,
      (signExtend word width = .error .fieldWidth ↔ ¬(1 ≤ width ∧ width ≤ 15)) ∧
      (1 ≤ width ∧ width ≤ 15 → ∃ extended, signExtend word width = .ok extended ∧
        signExtend extended width = .ok extended ∧
        (∀ i < width, extended.getLsbD i = word.getLsbD i) ∧
        (word.getLsbD (width - 1) = false → extended = word) ∧
        (word.getLsbD (width - 1) = true →
          ∀ i < 16, extended.getLsbD i = (word.getLsbD i || decide (width ≤ i))))) ∧
    ∀ count position,
      (∀ cause, signed word count position = .error cause ↔
        unsigned word count position = .error cause ∨
          Inside count position ∧ count = 16 ∧ cause = .fieldWidth) ∧
      (Inside count position → count ≠ 16 → ∃ field v,
        unsigned word count position = .ok field ∧ signed word count position = .ok v ∧
          ∀ u, u = v ↔ (-2 ^ (count - 1) ≤ u ∧ u < 2 ^ (count - 1)) ∧
            u ≡ field.toNat [ZMOD 2 ^ count]) := by
  refine ⟨fun count position => ⟨?_, ?_, Misuse.emptyField_says _ _, Misuse.wideField_says _ _,
    exists_unsigned word⟩, inWords_eq word, fun count count' position => unsigned_tiles word,
    fun width => ⟨?_, fun hwidth => ?_⟩,
    fun count position => ⟨fun cause => signed_eq_error_iff, exists_signed word⟩⟩
  · simp [unsigned_eq_error_iff]
  · simp [unsigned_eq_error_iff]
  · simp [signExtend_eq_error_iff]
  · have hok : signExtend word width = .ok _ := signExtend_eq_ok_iff.2 ⟨by omega, rfl⟩
    refine ⟨_, hok, signExtend_idem hok, fun i hi => ?_, fun hsign => ?_, fun hsign i hi => ?_⟩
    · rw [getLsbD_signExtend hok (by omega), decide_eq_false (Nat.not_le.2 hi), Bool.and_false,
        Bool.or_false]
    · rw [hsign, if_neg (by decide)]
    · rw [getLsbD_signExtend hok hi, hsign, Bool.true_and]

/-- A field of no bits at a position that no word has is refused for its bits. The whole word is a
field, but no signed one. Its highest digit is 11, or -5 if it is signed. As numbers of 5 bits 0x4001
has its sign clear and 0x40F1 has it set; bit 14 stays in both. -/
theorem fields_are_numbers_digits :
    unsigned 0xBEEF 0 200 = .error (.emptyField 0 200) ∧
      (Inside 16 1 ∧ signed 0xBEEF 16 1 = .error .fieldWidth) ∧
      (0 < 12 ∧ 0 < 4 ∧ Inside (12 + 4) 1 ∧ ∃ whole low high : Word,
        unsigned 0xBEEF (12 + 4) 1 = .ok whole ∧ unsigned 0xBEEF 12 1 = .ok low ∧
          unsigned 0xBEEF 4 (1 + 12) = .ok high ∧ whole.toNat = low.toNat + 2 ^ 12 * high.toNat) ∧
      (Inside 4 13 ∧ 4 ≠ 16 ∧ signed 0xBEEF 4 13 = .ok (-5) ∧
        ∀ u : Int, u = -5 ↔ (-2 ^ 3 ≤ u ∧ u < 2 ^ 3) ∧ u ≡ 11 [ZMOD 2 ^ 4]) ∧
      (1 ≤ 5 ∧ 5 ≤ 15) ∧ signExtend 0x4001 5 = .ok 0x4001 ∧
      ∃ extended, signExtend 0x40F1 5 = .ok extended ∧ signExtend extended 5 = .ok extended ∧
        ∀ i < 16, extended.getLsbD i = ((0x40F1 : Word).getLsbD i || decide (5 ≤ i)) := by
  obtain ⟨hunsigned, -, htiles, -, hsigned⟩ := fields_are_numbers 0xBEEF
  have hwidth : 1 ≤ 5 ∧ 5 ≤ 15 := by decide
  have hwhole : Inside 16 1 := by decide
  have hdigit : Inside 4 13 := by decide
  refine ⟨(hunsigned 0 200).1.2 (.inl rfl),
    ⟨hwhole, ((hsigned 16 1).1 .fieldWidth).2 (.inr ⟨hwhole, rfl, rfl⟩)⟩,
    ⟨by decide, by decide, by decide, htiles 12 4 1 (by decide) (by decide) (by decide)⟩,
    ⟨hdigit, by decide, ?_⟩, hwidth, ?_, ?_⟩
  · obtain ⟨field, v, hfield, hv, hunique⟩ := (hsigned 4 13).2 hdigit (by decide)
    have hfield' : unsigned 0xBEEF 4 13 = .ok 11 := rfl
    have hv' : signed 0xBEEF 4 13 = .ok (-5) := rfl
    cases hfield.symm.trans hfield'
    cases hv.symm.trans hv'
    exact ⟨hv, hunique⟩
  · obtain ⟨-, -, -, hextend, -⟩ := fields_are_numbers 0x4001
    obtain ⟨extended, hok, -, -, hclear, -⟩ := (hextend 5).2 hwidth
    rw [hok, hclear (by decide)]
  · obtain ⟨-, -, -, hextend, -⟩ := fields_are_numbers 0x40F1
    obtain ⟨extended, hok, hidem, -, -, hset⟩ := (hextend 5).2 hwidth
    exact ⟨extended, hok, hidem, hset (by decide)⟩

end Field
end Lc3
