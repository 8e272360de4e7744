import Lc3.Proofs.Fields

/-! # The bits of a word that matter

Which bits of a word an instruction is made of depends on its opcode, and for ADD, AND and JSR on a
further bit. Two words hold the same instruction iff they agree on these bits, and then no machine
can tell them apart by executing them.

* `Reference.AgreeOn`: two words have the same bits in some places.
* `Reference.AgreeWhereSignificant`: they have the same opcode, and the same bits where this opcode
  has fields.
* `registerAt_eq_iff`, `lowSigned_eq_iff`, `operandBits_eq_iff`: fields are equal iff their bits are.
* `ofBits_eq_iff`: instructions of one opcode are equal iff their fields are.
* `Instruction.signed?`, `eq_lowSigned_iff`: the signed field of an instruction, as the only integer
  of its range that is congruent to the bits.
* `Executes.of_same_instruction`: an execution depends on the instruction of the word only.
* `decode_keeps_significant_bits`: all of this for any two words and any machine.
-/

namespace Lc3
set_option autoImplicit false
open Reference

/-! ## Agreement -/

namespace Reference

/-- The two words have the same bits from bit `high` down to bit `low`; bit 0 is the lowest. -/
def AgreeOn (high low : Nat) (w w' : Word) : Prop :=
  ∀ i, low ≤ i → i ≤ high → w.getLsbD i = w'.getLsbD i

/-- The two words have the same opcode, and the same bits in the places where it has its fields. -/
def AgreeWhereSignificant (w w' : Word) : Prop :=
  AgreeOn 15 12 w w' ∧
    match bits w 12 4 with
    | 0x1 | 0x5 =>
      AgreeOn 11 5 w w' ∧ if bits w 5 1 = 1 then AgreeOn 4 0 w w' else AgreeOn 2 0 w w'
    | 0x4 => AgreeOn 11 11 w w' ∧ if bits w 11 1 = 1 then AgreeOn 10 0 w w' else AgreeOn 8 6 w w'
    | 0x9 => AgreeOn 11 6 w w'
    | 0xC => AgreeOn 8 6 w w'
    | 0xF => AgreeOn 7 0 w w'
    | _ => AgreeOn 11 0 w w'

variable {w w' : Word}

theorem agreeOn_single {i : Nat} : AgreeOn i i w w' ↔ w.getLsbD i = w'.getLsbD i := by
  constructor
  · intro h
    exact h i (Nat.le_refl i) (Nat.le_refl i)
  · intro h j hle hge
    obtain rfl := Nat.le_antisymm hle hge
    exact h

/-- Neighbouring fields are one. -/
theorem agreeOn_join {high mid low : Nat} (hhigh : mid ≤ high) (hlow : low ≤ mid + 1) :
    AgreeOn high (mid + 1) w w' ∧ AgreeOn mid low w w' ↔ AgreeOn high low w w' := by
  constructor
  · rintro ⟨hupper, hlower⟩ i hle hge
    by_cases hi : i ≤ mid
    · exact hlower i hle hi
    · exact hupper i (by omega) hge
  · intro h
    exact ⟨fun i hle hge => h i (by omega) hge, fun i hle hge => h i hle (by omega)⟩

theorem bits_eq_one_iff {i : Nat} : bits w i 1 = 1 ↔ w.getLsbD i = true := by
  rw [getLsbD_eq_bits, decide_eq_true_iff]

theorem extractLsb'_eq_iff (low count : Nat) :
    w.extractLsb' low (count + 1) = w'.extractLsb' low (count + 1) ↔
      AgreeOn (low + count) low w w' := by
  constructor
  · intro h i hle hge
    have hbit := congrArg (fun field => field.getLsbD (i - low)) h
    simp only [BitVec.getLsbD_extractLsb', decide_eq_true (show i - low < count + 1 by omega),
      Bool.true_and, Nat.add_sub_cancel' hle] at hbit
    exact hbit
  · intro h
    refine BitVec.eq_of_getLsbD_eq fun j hj => ?_
    simp only [BitVec.getLsbD_extractLsb', decide_eq_true hj, Bool.true_and]
    exact h (low + j) (by omega) (by omega)

end Reference

/-! ## Fields -/

namespace Instruction
variable {w w' : Word}

theorem setWidth_eq_iff {count width : Nat} (h : count ≤ width) {field field' : BitVec count} :
    field.setWidth width = field'.setWidth width ↔ field = field' := by
  rw [← BitVec.toNat_inj, ← BitVec.toNat_inj, Field.toNat_setWidth_field _ h,
    Field.toNat_setWidth_field _ h]

theorem registerAt_eq_iff (low : Nat) :
    registerAt w low = registerAt w' low ↔ AgreeOn (low + 2) low w w' := by
  rw [registerAt, registerAt, setWidth_eq_iff (by decide), extractLsb'_eq_iff]

theorem lowSigned_eq_iff (width : Nat) :
    lowSigned w (width + 1) = lowSigned w' (width + 1) ↔ AgreeOn width 0 w w' := by
  rw [lowSigned, lowSigned, BitVec.toInt_inj, extractLsb'_eq_iff, Nat.zero_add]

theorem operandBits_eq_iff :
    operandBits w = operandBits w' ↔
      AgreeOn 5 5 w w' ∧ if bits w 5 1 = 1 then AgreeOn 4 0 w w' else AgreeOn 2 0 w w' := by
  simp only [agreeOn_single, operandBits, bits_eq_one_iff]
  cases w.getLsbD 5 <;> cases w'.getLsbD 5
  · simp [registerAt_eq_iff]
  · simp
  · simp
  · simp [lowSigned_eq_iff]

end Instruction

/-! ## Opcodes -/

theorem Opcode.code_inj {op op' : Opcode} : op.code = op'.code ↔ op = op' := by
  refine ⟨fun h => ?_, congrArg code⟩
  have hsome := congrArg ofCode? h
  rw [ofCode?_code, ofCode?_code] at hsome
  exact Option.some.inj hsome

theorem agreeOn_opcode_iff {w w' : Word} {op op' : Opcode} (h : Opcode.ofWord? w = some op)
    (h' : Opcode.ofWord? w' = some op') : AgreeOn 15 12 w w' ↔ op = op' := by
  rw [← extractLsb'_eq_iff 12 3, ← Instruction.setWidth_eq_iff (show 4 ≤ 8 by decide),
    Opcode.ofCode?_eq_some_iff.1 h, Opcode.ofCode?_eq_some_iff.1 h', Opcode.code_inj]

namespace Instruction
variable {w w' : Word}

def opcode : Instruction → Opcode
  | add .. => .add
  | and .. => .and
  | not .. => .not
  | ld .. => .ld
  | ldi .. => .ldi
  | ldr .. => .ldr
  | lea .. => .lea
  | st .. => .st
  | sti .. => .sti
  | str .. => .str
  | br .. => .br
  | jmp _ => .jmp
  | jsr _ | jsrr _ => .jsr
  | trap _ => .trap

theorem opcode_ofBits (w : Word) (op : Opcode) : (ofBits w op).opcode = op := by
  cases op with
  | jsr =>
    rw [ofBits]
    split <;> rfl
  | _ => rfl

/-- Under the same opcode, words hold the same instruction iff its fields have the same bits. -/
theorem ofBits_eq_iff {op : Opcode} (h : Opcode.ofWord? w = some op)
    (h' : Opcode.ofWord? w' = some op) :
    ofBits w op = ofBits w' op ↔ AgreeWhereSignificant w w' := by
  have hcode := (ofWord?_eq_some_iff w).1 h
  rw [AgreeWhereSignificant, and_iff_right ((agreeOn_opcode_iff h h').2 rfl), hcode]
  cases op with
  | add | and =>
    simp only [ofBits, Opcode.code, add.injEq, and.injEq, registerAt_eq_iff, operandBits_eq_iff]
    rw [← and_assoc, agreeOn_join (by decide) (by decide), ← and_assoc,
      agreeOn_join (by decide) (by decide)]
    rfl
  | not =>
    simp only [ofBits, Opcode.code, not.injEq, registerAt_eq_iff]
    exact agreeOn_join (by decide) (by decide)
  | ld | ldi | lea | st | sti =>
    simp only [ofBits, Opcode.code, ld.injEq, ldi.injEq, lea.injEq, st.injEq, sti.injEq,
      registerAt_eq_iff, lowSigned_eq_iff]
    exact agreeOn_join (by decide) (by decide)
  | ldr | str =>
    simp only [ofBits, Opcode.code, ldr.injEq, str.injEq, registerAt_eq_iff, lowSigned_eq_iff]
    rw [agreeOn_join (by decide) (by decide)]
    exact agreeOn_join (by decide) (by decide)
  | jmp =>
    simp only [ofBits, Opcode.code, jmp.injEq]
    exact registerAt_eq_iff 6
  | br =>
    simp only [ofBits, Opcode.code, br.injEq, ← agreeOn_single, lowSigned_eq_iff]
    rw [agreeOn_join (by decide) (by decide), agreeOn_join (by decide) (by decide)]
    exact agreeOn_join (by decide) (by decide)
  | jsr =>
    simp only [ofBits, Opcode.code, agreeOn_single, bits_eq_one_iff]
    cases w.getLsbD 11 <;> cases w'.getLsbD 11
    · simp [registerAt_eq_iff]
    · simp
    · simp
    · simp [lowSigned_eq_iff]
  | trap =>
    simp only [ofBits, Opcode.code, trap.injEq]
    exact extractLsb'_eq_iff 0 7

theorem decode_eq_some_iff {i : Instruction} :
    decode w = .ok (some i) ↔ ∃ op, Opcode.ofWord? w = some op ∧ i = ofBits w op := by
  rw [decode_eq_ok, Except.ok.injEq, Option.map_eq_some_iff]
  simp only [eq_comm]

theorem eq_iff_agreeWhereSignificant {i i' : Instruction} (h : decode w = .ok (some i))
    (h' : decode w' = .ok (some i')) : i = i' ↔ AgreeWhereSignificant w w' := by
  obtain ⟨op, hop, rfl⟩ := decode_eq_some_iff.1 h
  obtain ⟨op', hop', rfl⟩ := decode_eq_some_iff.1 h'
  by_cases heq : op = op'
  · subst heq
    exact ofBits_eq_iff hop hop'
  · refine iff_of_false (fun hi => heq ?_) fun hagree => heq ?_
    · have hopcode := congrArg opcode hi
      rw [opcode_ofBits, opcode_ofBits] at hopcode
      exact hopcode
    · exact (agreeOn_opcode_iff hop hop').1 hagree.1

/-! ## Signed fields -/

/-- The signed field of an instruction, if it has one, with its width: the immediate operand or the
offset. -/
def signed? : Instruction → Option (Nat × Int)
  | add _ _ (.immediate value) | and _ _ (.immediate value) => some (5, value)
  | ldr _ _ offset | str _ _ offset => some (6, offset)
  | ld _ offset | ldi _ offset | lea _ offset | st _ offset | sti _ offset | br _ _ _ offset =>
    some (9, offset)
  | jsr offset => some (11, offset)
  | add .. | and .. | not .. | jmp _ | jsrr _ | trap _ => none

/-- A signed field stands in the lowest bits. -/
theorem signed?_ofBits {op : Opcode} {width : Nat} {v : Int}
    (h : (ofBits w op).signed? = some (width, v)) : 0 < width ∧ v = lowSigned w width := by
  cases op with
  | add | and =>
    simp only [ofBits, operandBits] at h
    split at h
    · cases h
      exact ⟨by decide, rfl⟩
    · cases h
  | ld | ldi | lea | st | sti | ldr | str | br =>
    cases h
    exact ⟨by decide, rfl⟩
  | jsr =>
    rw [ofBits] at h
    split at h
    · cases h
      exact ⟨by decide, rfl⟩
    · cases h
  | not | jmp | trap => cases h

theorem eq_lowSigned_iff (w : Word) {width : Nat} (hw : 0 < width) (u : Int) :
    u = lowSigned w width ↔
      (-2 ^ (width - 1) ≤ u ∧ u < 2 ^ (width - 1)) ∧ u ≡ bits w 0 width [ZMOD 2 ^ width] := by
  rw [lowSigned, ← toNat_extractLsb'_eq_bits]
  exact eq_toInt_iff hw _ u

end Instruction

/-! ## Execution -/

/-- The outcome of a step and the machine that it leaves, without the events, which name the word. -/
def Step.withoutEvents {σ : Type} (step : Step σ) : Except ExecutionError Outcome × Machine σ :=
  (step.result, step.machine)

namespace Machine
variable {σ : Type} [TrapHandler σ] {m : Machine σ} {w w' : Word} {i : Instruction}

theorem Executes.of_same_instruction {step : Step σ} (h : m.Executes w step)
    (hd : Instruction.decode w = .ok (some i)) (hd' : Instruction.decode w' = .ok (some i)) :
    ∃ step', m.Executes w' step' ∧ step'.withoutEvents = step.withoutEvents := by
  cases h with
  | lastAddress hpc => exact ⟨_, .lastAddress hpc, rfl⟩
  | illegal hpc hnone => cases hd.symm.trans hnone
  | rejected hpc hi he =>
    cases hd.symm.trans hi
    exact ⟨_, .rejected hpc hd' he, rfl⟩
  | performed hpc hi hv he =>
    cases hd.symm.trans hi
    exact ⟨_, .performed hpc hd' hv he, rfl⟩
  | served hpc hi hs hr =>
    cases hd.symm.trans hi
    exact ⟨_, .served hpc hd' hs hr, rfl⟩
  | refused hpc hi hs hr =>
    cases hd.symm.trans hi
    exact ⟨_, .refused hpc hd' hs hr, rfl⟩

theorem Misuses.of_same_instruction {cause : Misuse} (h : m.Misuses w cause)
    (hd : Instruction.decode w = .ok (some i)) (hd' : Instruction.decode w' = .ok (some i)) :
    m.Misuses w' cause := by
  obtain ⟨hpc, j, hj, hcause⟩ := h
  cases hd.symm.trans hj
  exact ⟨hpc, i, hd', hcause⟩

theorem execute_same_instruction (hd : Instruction.decode w = .ok (some i))
    (hd' : Instruction.decode w' = .ok (some i)) :
    (m.execute w).map Step.withoutEvents = (m.execute w').map Step.withoutEvents := by
  obtain ⟨step, h⟩ | ⟨cause, h⟩ := executes_or_misuses m w
  · obtain ⟨step', h', hsame⟩ := h.of_same_instruction hd hd'
    rw [h.execute_eq, h'.execute_eq, Except.map, Except.map, hsame]
  · rw [execute_eq_error h, execute_eq_error (h.of_same_instruction hd hd')]

/-- A word has no instruction iff its opcode is 8 or 13. Two instructions are the same iff their
words agree in the significant bits, and then every machine with every handler executes the words
with the same result and is left as the same machine. All registers of an instruction exist, and
its signed field is the only integer of its range that is congruent to the lowest bits. -/
theorem decode_keeps_significant_bits (m : Machine σ) :
    (∀ w, ∃ decoded, Instruction.decode w = .ok decoded ∧
        (decoded = none ↔ bits w 12 4 = 0x8 ∨ bits w 12 4 = 0xD)) ∧
      (∀ w w' i i', Instruction.decode w = .ok (some i) → Instruction.decode w' = .ok (some i') →
        (i = i' ↔ AgreeWhereSignificant w w')) ∧
      (∀ w i, Instruction.decode w = .ok (some i) → (∀ r ∈ i.registers, r.toNat ≤ 7) ∧
        ∀ width v, i.signed? = some (width, v) → ∀ u, u = v ↔
          (-2 ^ (width - 1) ≤ u ∧ u < 2 ^ (width - 1)) ∧ u ≡ bits w 0 width [ZMOD 2 ^ width]) ∧
      ∀ w w' i i', Instruction.decode w = .ok (some i) → Instruction.decode w' = .ok (some i') →
        AgreeWhereSignificant w w' →
          (m.execute w).map Step.withoutEvents = (m.execute w').map Step.withoutEvents := by
  refine ⟨fun w => ⟨_, Instruction.decode_eq_ok w, ?_⟩,
    fun w w' i i' => Instruction.eq_iff_agreeWhereSignificant, fun w i hd => ?_,
    fun w w' i i' hd hd' hagree => ?_⟩
  · rw [Option.map_eq_none_iff, ofWord?_eq_none_iff]
  · obtain ⟨op, -, rfl⟩ := Instruction.decode_eq_some_iff.1 hd
    refine ⟨Instruction.registers_ofBits w op, fun width v hsigned u => ?_⟩
    obtain ⟨hw, rfl⟩ := Instruction.signed?_ofBits hsigned
    exact Instruction.eq_lowSigned_iff w hw u
  · obtain rfl := (Instruction.eq_iff_agreeWhereSignificant hd hd').2 hagree
    exact execute_same_instruction hd hd'

/-- Bits 4 and 3 of an AND are free if bit 5 is clear, and part of the immediate operand if it is
set. Bits 11 to 8 of a TRAP are free, so both words call the service of vector 0x25. -/
theorem decode_keeps_significant_bits_nearEnd :
    Instruction.decode 0x5000 = .ok (some (.and 0 0 (.register 0))) ∧
      Instruction.decode 0x5018 = .ok (some (.and 0 0 (.register 0))) ∧
      AgreeWhereSignificant 0x5000 0x5018 ∧
      Instruction.decode 0x5020 = .ok (some (.and 0 0 (.immediate 0))) ∧
      Instruction.decode 0x5038 = .ok (some (.and 0 0 (.immediate (-8)))) ∧
      ¬AgreeWhereSignificant 0x5020 0x5038 ∧
      (∀ u : Int, u = -8 ↔ (-2 ^ 4 ≤ u ∧ u < 2 ^ 4) ∧ u ≡ bits 0x5038 0 5 [ZMOD 2 ^ 5]) ∧
      Instruction.decode 0xF025 = .ok (some (.trap 0x25)) ∧
      Instruction.decode 0xFA25 = .ok (some (.trap 0x25)) ∧
      (nearEnd.execute 0xF025).map Step.withoutEvents =
        (nearEnd.execute 0xFA25).map Step.withoutEvents := by
  obtain ⟨-, hinj, hfields, hexecute⟩ := decode_keeps_significant_bits nearEnd
  have hand : Instruction.decode 0x5000 = .ok (some (.and 0 0 (.register 0))) := rfl
  have hand' : Instruction.decode 0x5018 = .ok (some (.and 0 0 (.register 0))) := rfl
  have himm : Instruction.decode 0x5020 = .ok (some (.and 0 0 (.immediate 0))) := rfl
  have himm' : Instruction.decode 0x5038 = .ok (some (.and 0 0 (.immediate (-8)))) := rfl
  have htrap : Instruction.decode 0xF025 = .ok (some (.trap 0x25)) := rfl
  have htrap' : Instruction.decode 0xFA25 = .ok (some (.trap 0x25)) := rfl
  refine ⟨hand, hand', (hinj _ _ _ _ hand hand').1 rfl, himm, himm', fun h => ?_, ?_, htrap, htrap',
    hexecute _ _ _ _ htrap htrap' ((hinj _ _ _ _ htrap htrap').1 rfl)⟩
  · cases (hinj _ _ _ _ himm himm').2 h
  · exact (hfields _ _ himm').2 5 (-8) rfl

end Machine
end Lc3
