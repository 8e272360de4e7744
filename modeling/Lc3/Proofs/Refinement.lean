import Lc3.Proofs.Execution
import Lc3.Proofs.Reference
import Lc3.Trap.Recorder

/-! # Instructions refine their account on numbers

* The fields that decoding reads are the fields of the reference account (`toNat_registerAt`,
  `lowSigned_eq_offset`, `getLsbD_eq_bits`).
* `Reference.Answers`: a checked effect agrees with the account: it succeeds only if the address of
  the account exists, and then with its configuration, and fails only with that address.
* `effect_answers`: the effect of every instruction but TRAP does.
* `execute_refines`: executing a word refines the account.
-/

namespace Lc3
set_option autoImplicit false
open Reference

/-! ## Fields -/

section Fields
variable (w : Word)

theorem toNat_extractLsb'_eq_bits (low count : Nat) :
    (w.extractLsb' low count).toNat = bits w low count := by
  rw [BitVec.extractLsb'_toNat, Nat.shiftRight_eq_div_pow]
  rfl

theorem toNat_registerAt (low : Nat) :
    (Instruction.registerAt w low).toNat = (register w low).val := by
  rw [Instruction.registerAt, Field.toNat_setWidth_field _ (by decide), toNat_extractLsb'_eq_bits]
  rfl

theorem lowSigned_eq_offset (width : Nat) : Instruction.lowSigned w width = offset w width := by
  rw [Instruction.lowSigned, BitVec.toInt_eq_toNat_cond, toNat_extractLsb'_eq_bits]
  rw [offset, signed]
  push_cast
  rfl

theorem getLsbD_eq_bits (i : Nat) : w.getLsbD i = decide (bits w i 1 = 1) := by
  rw [BitVec.getLsbD, Nat.testBit_eq_decide_div_mod_eq]
  rfl

theorem ofWord?_eq : Opcode.ofWord? w = Opcode.ofCode? (BitVec.ofNat 8 (bits w 12 4)) := by
  rw [Opcode.ofWord?, ← toNat_extractLsb'_eq_bits, BitVec.ofNat_toNat]

theorem ofWord?_eq_none_iff :
    Opcode.ofWord? w = none ↔ bits w 12 4 = 0x8 ∨ bits w 12 4 = 0xD := by
  have h : ∀ n < 2 ^ 4, Opcode.ofCode? (BitVec.ofNat 8 n) = none ↔ n = 0x8 ∨ n = 0xD := by decide
  rw [ofWord?_eq]
  exact h _ (Nat.mod_lt _ (by decide))

theorem ofWord?_eq_some_iff {op : Opcode} :
    Opcode.ofWord? w = some op ↔ bits w 12 4 = op.code.toNat := by
  have hlt : bits w 12 4 < 2 ^ 8 := Nat.lt_trans (Nat.mod_lt _ (by decide)) (by decide)
  rw [ofWord?_eq, Opcode.ofCode?_eq_some_iff, ← BitVec.toNat_inj, BitVec.toNat_ofNat,
    Nat.mod_eq_of_lt hlt]

theorem decode_eq_ofBits (op : Opcode) (h : bits w 12 4 = op.code.toNat) :
    Instruction.decode w = .ok (some (Instruction.ofBits w op)) := by
  rw [Instruction.decode_eq_ok, (ofWord?_eq_some_iff w).2 h]
  rfl

theorem decode_eq_none (h : bits w 12 4 = 0x8 ∨ bits w 12 4 = 0xD) :
    Instruction.decode w = .ok none := by
  rw [Instruction.decode_eq_ok, (ofWord?_eq_none_iff w).2 h]
  rfl

theorem decode_eq_trap (h : bits w 12 4 = 0xF) :
    Instruction.decode w = .ok (some (.trap (vector w))) := by
  rw [decode_eq_ofBits w .trap h, Instruction.ofBits, vector, ← toNat_extractLsb'_eq_bits,
    BitVec.ofNat_toNat, BitVec.setWidth_eq]

theorem decode_eq_trap_iff {v : Byte} :
    Instruction.decode w = .ok (some (.trap v)) ↔ bits w 12 4 = 0xF ∧ v = vector w := by
  constructor
  · intro hd
    by_cases h : bits w 12 4 = 0xF
    · cases hd.symm.trans (decode_eq_trap w h)
      exact ⟨h, rfl⟩
    · rw [Instruction.decode_eq_ok] at hd
      obtain ⟨op, hop, htrap⟩ := Option.map_eq_some_iff.1 (Except.ok.inj hd)
      have hne : op ≠ .trap := by
        rintro rfl
        exact h ((ofWord?_eq_some_iff w).1 hop)
      have hv := Instruction.vector?_ofBits w hne
      rw [htrap] at hv
      cases hv
  · rintro ⟨h, rfl⟩
    exact decode_eq_trap w h

/-- A word that holds an instruction without a service is neither illegal nor a TRAP. -/
theorem opcode_of_vector?_none {i : Instruction} (hd : Instruction.decode w = .ok (some i))
    (hv : i.vector? = none) : bits w 12 4 ≠ 0x8 ∧ bits w 12 4 ≠ 0xD ∧ bits w 12 4 ≠ 0xF := by
  refine ⟨fun h => ?_, fun h => ?_, fun h => ?_⟩
  · cases hd.symm.trans (decode_eq_none w (.inl h))
  · cases hd.symm.trans (decode_eq_none w (.inr h))
  · cases hd.symm.trans (decode_eq_trap w h)
    cases hv

end Fields

theorem ofWord_eq_sign (v : Word) : Condition.ofWord v = sign v.toNat := by
  have h : v.toInt = signed 16 v.toNat := BitVec.toInt_eq_toNat_cond v
  rw [Condition.ofWord, sign, h]

/-! ## Registers -/

namespace RegisterFile
variable (regs : RegisterFile) (w : Word)

theorem read_registerAt (low : Nat) :
    regs.read (Instruction.registerAt w low) = .ok regs.general[register w low] := by
  have h := toNat_registerAt w low
  rw [read_eq_ok (by rw [h]; exact (register w low).isLt)]
  simp only [h, Fin.getElem_fin]

theorem writeResult_registerAt (low : Nat) (v : Word) :
    regs.writeResult (Instruction.registerAt w low) v =
      .ok (regs.withResult (register w low) v) := by
  have h := toNat_registerAt w low
  have hlt : (Instruction.registerAt w low).toNat < 8 := by
    rw [h]
    exact (register w low).isLt
  rw [writeResult, write_eq_ok v hlt]
  simp only [h]
  rfl

def operandWord : Word :=
  if bits w 5 1 = 1 then BitVec.ofInt 16 (offset w 5) else regs.general[register w 0]

theorem value_operandBits :
    (Instruction.operandBits w).value regs = .ok (regs.operandWord w) := by
  unfold Instruction.operandBits operandWord
  rw [getLsbD_eq_bits, lowSigned_eq_offset]
  by_cases h : bits w 5 1 = 1
  · simp only [h, decide_true, if_true]
    rfl
  · simp only [h, decide_false, if_false]
    exact read_registerAt regs w 0

theorem combine_operandBits (f : Word → Word → Word) :
    regs.combine f (Instruction.registerAt w 9) (Instruction.registerAt w 6)
        (Instruction.operandBits w) =
      .ok (regs.withResult (register w 9) (f regs.general[register w 6] (regs.operandWord w))) := by
  unfold combine
  rw [read_registerAt, value_operandBits]
  exact writeResult_registerAt regs w 9 _

end RegisterFile

/-! ## The view of the states after an instruction -/

namespace State
variable {s : State}

theorem toNat_next_pc (hpc : s.regs.pc ≠ 0xFFFF) : s.fetched.pc.toNat = s.regs.pc.toNat + 1 := by
  unfold fetched
  bv_omega

theorem config_fetched (hpc : s.regs.pc ≠ 0xFFFF) :
    ({ regs := s.fetched, mem := s.mem } : State).config = s.config.advance := by
  rw [config, Config.advance, toNat_next_pc hpc]
  rfl

theorem config_withResult (hpc : s.regs.pc ≠ 0xFFFF) (d : Fin 8) (v : Word) :
    ({ regs := s.fetched.withResult d v, mem := s.mem } : State).config =
      s.config.advance.result d v.toNat := by
  rw [← config_fetched hpc]
  simp only [config, Config.result, RegisterFile.withResult, reg_set, ofWord_eq_sign]

theorem config_store (hpc : s.regs.pc ≠ 0xFFFF) (a v : Word) :
    ({ regs := s.fetched, mem := s.mem.write a v } : State).config =
      s.config.advance.store a.toNat v.toNat := by
  rw [config_write, config_fetched hpc]

theorem config_goto (a : Word) :
    ({ regs := { s.fetched with pc := a }, mem := s.mem } : State).config =
      s.config.goto a.toNat := rfl

theorem config_link (hpc : s.regs.pc ≠ 0xFFFF) (a : Word) :
    ({ regs := { s.fetched.withLink s.fetched.pc with pc := a }, mem := s.mem } : State).config =
      s.config.link.goto a.toNat := by
  have hset := reg_set s.fetched.general 7 s.fetched.pc
  rw [toNat_next_pc hpc] at hset
  rw [config, Config.link, Config.goto, Config.mk.injEq]
  exact ⟨hset, rfl, rfl, rfl⟩

end State

/-! ## Addresses -/

theorem effectiveAddress_of_inSpace {base : Word} {offset : Int}
    (h : InSpace (base.toNat + offset)) :
    ∃ a, effectiveAddress base offset = .ok a ∧ a.toNat = (base.toNat + offset).toNat := by
  obtain ⟨h0, h1⟩ := h
  have ha : (BitVec.ofNat 16 (base.toNat + offset).toNat).toNat = (base.toNat + offset).toNat := by
    rw [BitVec.toNat_ofNat]
    omega
  refine ⟨_, effectiveAddress_eq_ok_iff.2 ?_, ha⟩
  rw [ha]
  omega

theorem effectiveAddress_of_not_inSpace {base : Word} {offset : Int}
    (h : ¬InSpace (base.toNat + offset)) :
    effectiveAddress base offset = .error (.addressOutOfRange (base.toNat + offset)) := by
  refine effectiveAddress_eq_error_iff.2 ⟨fun hr => h ⟨hr.1, ?_⟩, rfl⟩
  omega

/-! ## Effects -/

/-- How a checked effect agrees with the account of the word on numbers. -/
def Reference.Answers (s : State) (w : Word) : Except Fault Effect → Prop
  | .ok eff =>
    (∀ x ∈ target w s.config, InSpace x) ∧ (s.commit eff).config = next w s.config
  | .error (.execution e) => ∃ x ∈ target w s.config, ¬InSpace x ∧ e = .addressOutOfRange x
  | .error (.misuse _) => False

namespace Reference
variable {s : State} {w : Word}

theorem Answers.unchecked {eff : Effect} (ht : target w s.config = none)
    (hn : (s.commit eff).config = next w s.config) : Answers s w (.ok eff) := by
  refine ⟨fun x hx => ?_, hn⟩
  rw [ht] at hx
  cases hx

theorem Answers.checked {base : Word} {offset x : Int} {eff : Word → Effect}
    (hx : base.toNat + offset = x) (ht : target w s.config = some x)
    (hn : ∀ a : Word, a.toNat = x.toNat → (s.commit (eff a)).config = next w s.config) :
    Answers s w (liftM (effectiveAddress base offset) >>= fun a => pure (eff a)) := by
  subst hx
  by_cases h : InSpace (base.toNat + offset)
  · obtain ⟨a, he, ha⟩ := effectiveAddress_of_inSpace h
    rw [he]
    refine ⟨fun x hx => ?_, hn a ha⟩
    rw [ht, Option.mem_some_iff] at hx
    exact hx ▸ h
  · rw [effectiveAddress_of_not_inSpace h]
    exact ⟨_, ht, h, rfl⟩

theorem pcRelative_fetched (hpc : s.regs.pc ≠ 0xFFFF) (width : Nat) :
    s.fetched.pc.toNat + offset w width = pcRelative w width s.config := by
  rw [State.toNat_next_pc hpc]
  rfl

theorem baseRelative_fetched :
    s.fetched.general[register w 6].toNat + offset w 6 = baseRelative w s.config := rfl

/-! ## Values -/

theorem toNat_operandWord :
    (s.fetched.operandWord w).toNat = (operand w s.config % 2 ^ 16).toNat := by
  unfold RegisterFile.operandWord operand
  split
  · rw [BitVec.toNat_ofInt]
    rfl
  · have hlt : s.fetched.general[register w 0].toNat < 2 ^ 16 := BitVec.isLt _
    show _ = ((s.fetched.general[register w 0].toNat : Int) % 2 ^ 16).toNat
    omega

theorem toNat_add_operandWord (a : Word) :
    (a + s.fetched.operandWord w).toNat = ((a.toNat + operand w s.config) % 2 ^ 16).toNat := by
  rw [BitVec.toNat_add, toNat_operandWord]
  omega

theorem toNat_and_operandWord (a : Word) :
    (a &&& s.fetched.operandWord w).toNat = a.toNat &&& (operand w s.config % 2 ^ 16).toNat := by
  rw [BitVec.toNat_and, toNat_operandWord]

end Reference

/-! ## Instructions -/

theorem liftM_ok_bind {α β : Type} (a : α) (rest : α → Except Fault β) :
    ((liftM (Except.ok a : Except Misuse α) : Except Fault α) >>= rest) = rest a := rfl

section Instructions
open Instruction
variable {s : State} {w : Word}

theorem answers_add (hpc : s.regs.pc ≠ 0xFFFF) (h : bits w 12 4 = 0x1) :
    Answers s w ((ofBits w .add).effect s.fetched s.mem) := by
  simp only [ofBits, effect, RegisterFile.combine_operandBits]
  refine .unchecked (by simp only [target, h]) ?_
  simp only [next, h]
  refine (State.config_withResult hpc _ _).trans ?_
  rw [toNat_add_operandWord]
  rfl

theorem answers_and (hpc : s.regs.pc ≠ 0xFFFF) (h : bits w 12 4 = 0x5) :
    Answers s w ((ofBits w .and).effect s.fetched s.mem) := by
  simp only [ofBits, effect, RegisterFile.combine_operandBits]
  refine .unchecked (by simp only [target, h]) ?_
  simp only [next, h]
  refine (State.config_withResult hpc _ _).trans ?_
  rw [toNat_and_operandWord]
  rfl

theorem answers_not (hpc : s.regs.pc ≠ 0xFFFF) (h : bits w 12 4 = 0x9) :
    Answers s w ((ofBits w .not).effect s.fetched s.mem) := by
  simp only [ofBits, effect, RegisterFile.read_registerAt, liftM_ok_bind,
    RegisterFile.writeResult_registerAt]
  refine .unchecked (by simp only [target, h]) ?_
  simp only [next, h]
  refine (State.config_withResult hpc _ _).trans ?_
  rw [BitVec.toNat_not]
  rfl

theorem answers_ld (hpc : s.regs.pc ≠ 0xFFFF) (h : bits w 12 4 = 0x2) :
    Answers s w ((ofBits w .ld).effect s.fetched s.mem) := by
  simp only [ofBits, effect, RegisterFile.writeResult_registerAt, lowSigned_eq_offset]
  refine .checked (pcRelative_fetched hpc 9) (by simp only [target, h]) fun a ha => ?_
  simp only [next, h]
  rw [← ha, State.mem_config]
  exact State.config_withResult hpc _ _

theorem answers_ldi (hpc : s.regs.pc ≠ 0xFFFF) (h : bits w 12 4 = 0xA) :
    Answers s w ((ofBits w .ldi).effect s.fetched s.mem) := by
  simp only [ofBits, effect, RegisterFile.writeResult_registerAt, lowSigned_eq_offset]
  refine .checked (pcRelative_fetched hpc 9) (by simp only [target, h]) fun a ha => ?_
  simp only [next, h]
  rw [← ha, State.mem_config, State.mem_config]
  exact State.config_withResult hpc _ _

theorem answers_lea (hpc : s.regs.pc ≠ 0xFFFF) (h : bits w 12 4 = 0xE) :
    Answers s w ((ofBits w .lea).effect s.fetched s.mem) := by
  simp only [ofBits, effect, RegisterFile.writeResult_registerAt, lowSigned_eq_offset]
  refine .checked (pcRelative_fetched hpc 9) (by simp only [target, h]) fun a ha => ?_
  simp only [next, h]
  rw [← ha]
  exact State.config_withResult hpc _ _

theorem answers_st (hpc : s.regs.pc ≠ 0xFFFF) (h : bits w 12 4 = 0x3) :
    Answers s w ((ofBits w .st).effect s.fetched s.mem) := by
  simp only [ofBits, effect, RegisterFile.read_registerAt, lowSigned_eq_offset]
  refine .checked (pcRelative_fetched hpc 9) (by simp only [target, h]) fun a ha => ?_
  simp only [next, h]
  rw [← ha]
  exact State.config_store hpc _ _

theorem answers_sti (hpc : s.regs.pc ≠ 0xFFFF) (h : bits w 12 4 = 0xB) :
    Answers s w ((ofBits w .sti).effect s.fetched s.mem) := by
  simp only [ofBits, effect, RegisterFile.read_registerAt, lowSigned_eq_offset]
  refine .checked (pcRelative_fetched hpc 9) (by simp only [target, h]) fun a ha => ?_
  simp only [next, h]
  rw [← ha, State.mem_config]
  exact State.config_store hpc _ _

theorem answers_ldr (hpc : s.regs.pc ≠ 0xFFFF) (h : bits w 12 4 = 0x6) :
    Answers s w ((ofBits w .ldr).effect s.fetched s.mem) := by
  simp only [ofBits, effect, RegisterFile.read_registerAt, RegisterFile.writeResult_registerAt,
    lowSigned_eq_offset]
  refine .checked baseRelative_fetched (by simp only [target, h]) fun a ha => ?_
  simp only [next, h]
  rw [← ha, State.mem_config]
  exact State.config_withResult hpc _ _

theorem answers_str (hpc : s.regs.pc ≠ 0xFFFF) (h : bits w 12 4 = 0x7) :
    Answers s w ((ofBits w .str).effect s.fetched s.mem) := by
  simp only [ofBits, effect, RegisterFile.read_registerAt, lowSigned_eq_offset]
  refine .checked baseRelative_fetched (by simp only [target, h]) fun a ha => ?_
  simp only [next, h]
  rw [← ha]
  exact State.config_store hpc _ _

theorem answers_jmp (h : bits w 12 4 = 0xC) :
    Answers s w ((ofBits w .jmp).effect s.fetched s.mem) := by
  simp only [ofBits, effect, RegisterFile.read_registerAt]
  refine .unchecked (by simp only [target, h]) ?_
  simp only [next, h]
  exact State.config_goto _

theorem selectedBy_eq_selects :
    s.fetched.condition.selectedBy (w.getLsbD 11) (w.getLsbD 10) (w.getLsbD 9) =
      selects w s.config := by
  have hc : s.config.cond = s.fetched.condition := rfl
  rw [getLsbD_eq_bits, getLsbD_eq_bits, getLsbD_eq_bits, selects, hc]
  cases s.fetched.condition <;> rfl

theorem answers_br (hpc : s.regs.pc ≠ 0xFFFF) (h : bits w 12 4 = 0x0) :
    Answers s w ((ofBits w .br).effect s.fetched s.mem) := by
  simp only [ofBits, effect, lowSigned_eq_offset, selectedBy_eq_selects]
  by_cases hs : selects w s.config = true
  · rw [if_pos hs]
    refine .checked (pcRelative_fetched hpc 9) (by simp only [target, h, if_pos hs]) fun a ha => ?_
    simp only [next, h, if_pos hs]
    rw [← ha]
    exact State.config_goto a
  · rw [if_neg hs]
    refine .unchecked (by simp only [target, h, if_neg hs]) ?_
    simp only [next, h, if_neg hs]
    exact State.config_fetched hpc

theorem answers_jsr (hpc : s.regs.pc ≠ 0xFFFF) (h : bits w 12 4 = 0x4) :
    Answers s w ((ofBits w .jsr).effect s.fetched s.mem) := by
  simp only [ofBits, getLsbD_eq_bits, decide_eq_true_eq]
  by_cases hb : bits w 11 1 = 1
  · rw [if_pos hb]
    simp only [effect, lowSigned_eq_offset]
    refine .checked (pcRelative_fetched hpc 11) (by simp only [target, h, if_pos hb])
      fun a ha => ?_
    simp only [next, h, if_pos hb]
    rw [← ha]
    exact State.config_link hpc a
  · rw [if_neg hb]
    simp only [effect, RegisterFile.read_registerAt]
    refine .unchecked (by simp only [target, h, if_neg hb]) ?_
    simp only [next, h, if_neg hb]
    exact State.config_link hpc _

theorem effect_answers (hpc : s.regs.pc ≠ 0xFFFF) {op : Opcode} (hop : op ≠ .trap)
    (hw : Opcode.ofWord? w = some op) : Answers s w ((ofBits w op).effect s.fetched s.mem) := by
  have h := (ofWord?_eq_some_iff w).1 hw
  cases op with
  | add => exact answers_add hpc h
  | and => exact answers_and hpc h
  | not => exact answers_not hpc h
  | ld => exact answers_ld hpc h
  | ldi => exact answers_ldi hpc h
  | lea => exact answers_lea hpc h
  | st => exact answers_st hpc h
  | sti => exact answers_sti hpc h
  | ldr => exact answers_ldr hpc h
  | str => exact answers_str hpc h
  | br => exact answers_br hpc h
  | jmp => exact answers_jmp h
  | jsr => exact answers_jsr hpc h
  | trap => exact absurd rfl hop

end Instructions

/-! ## Executing a word -/

namespace Machine
variable {σ : Type} [TrapHandler σ] {m : Machine σ} {word : Word}

/-- Outside of TRAP, a word that holds an instruction is executed as its account says: with the
configuration of the account if the address that it forms exists, and with this address as the
error if it does not. -/
theorem executes_plain (hpc : m.pc ≠ 0xFFFF)
    (hop : bits word 12 4 ≠ 0x8 ∧ bits word 12 4 ≠ 0xD ∧ bits word 12 4 ≠ 0xF) :
    ∃ step, m.Executes word step ∧ step.machine.handler = m.handler ∧
      ((∀ x ∈ target word m.state.config, InSpace x) ∧ step.result = .ok .proceed ∧
          step.machine.state.config = next word m.state.config ∨
        ∃ x ∈ target word m.state.config, ¬InSpace x ∧
          step.result = .error (.addressOutOfRange x) ∧ step.machine = m) := by
  have hd := Instruction.decode_eq_ok word
  cases hw : Opcode.ofWord? word with
  | none =>
    rcases (ofWord?_eq_none_iff word).1 hw with h | h
    · exact absurd h hop.1
    · exact absurd h hop.2.1
  | some op =>
    have hne : op ≠ .trap := by
      rintro rfl
      exact hop.2.2 ((ofWord?_eq_some_iff word).1 hw)
    have ha := effect_answers hpc hne hw
    rw [hw, Option.map_some] at hd
    cases he : (Instruction.ofBits word op).effect m.state.fetched m.state.mem with
    | ok eff =>
      rw [he] at ha
      exact ⟨_, .performed hpc hd (Instruction.vector?_ofBits word hne) he, rfl, .inl ⟨ha.1, rfl, ha.2⟩⟩
    | error fault =>
      rw [he] at ha
      cases fault with
      | misuse cause => exact ha.elim
      | execution e =>
        obtain ⟨x, hx, hn, rfl⟩ := ha
        exact ⟨_, .rejected hpc hd he, rfl, .inr ⟨x, hx, hn, rfl, rfl⟩⟩

/-- Executing a word that holds an instruction other than TRAP always returns. It succeeds iff the
address that the instruction forms exists, and then it continues, the registers, PC, condition code
and cells are those of the account, and the handler is untouched. -/
theorem execute_refines (m : Machine σ) (word : Word) (hpc : m.pc ≠ 0xFFFF)
    (hop : bits word 12 4 ≠ 0x8 ∧ bits word 12 4 ≠ 0xD ∧ bits word 12 4 ≠ 0xF) :
    ∃ step, m.execute word = .ok step ∧
      ((∃ outcome, step.result = .ok outcome) ↔
        ∀ x ∈ target word m.state.config, InSpace x) ∧
      ∀ outcome, step.result = .ok outcome →
        outcome = .proceed ∧ step.machine.handler = m.handler ∧
          step.machine.state.config = next word m.state.config := by
  obtain ⟨step, hs, hh, ⟨hin, hr, hc⟩ | ⟨x, hx, hn, hr, -⟩⟩ := executes_plain hpc hop
  · refine ⟨step, hs.execute_eq, iff_of_true ⟨_, hr⟩ hin, fun outcome ho => ?_⟩
    rw [hr] at ho
    cases ho
    exact ⟨rfl, hh, hc⟩
  · refine ⟨step, hs.execute_eq, iff_of_false ?_ fun hin => hn (hin x hx), fun outcome ho => ?_⟩
    · rintro ⟨outcome, ho⟩
      rw [hr] at ho
      cases ho
    · rw [hr] at ho
      cases ho

/-- R1 holds 5, and the cell behind PC holds its own address. -/
def selfPointer : Machine Recorder where
  state :=
    { regs := { general := #v[0, 5, 0, 0, 0, 0, 0, 0], pc := 0x3000, condition := .zero }
      mem := Memory.zeroed.write 0x3001 0x3001 }
  handler := {}

/-- STI overwrites the cell that it takes its address from. -/
theorem execute_refines_selfPointer :
    selfPointer.pc ≠ 0xFFFF ∧
      (bits 0xB200 12 4 ≠ 0x8 ∧ bits 0xB200 12 4 ≠ 0xD ∧ bits 0xB200 12 4 ≠ 0xF) ∧
      ∃ step, selfPointer.execute 0xB200 = .ok step ∧ step.result = .ok .proceed ∧
        step.machine.state.mem.read 0x3001 = 5 := by
  have hop : bits 0xB200 12 4 ≠ 0x8 ∧ bits 0xB200 12 4 ≠ 0xD ∧ bits 0xB200 12 4 ≠ 0xF := by decide
  have hpc : selfPointer.pc ≠ 0xFFFF := by decide
  obtain ⟨step, hs, hok, hres⟩ := execute_refines selfPointer 0xB200 hpc hop
  have hptr : selfPointer.state.config.mem 0x3001 = 0x3001 := by
    have h := State.mem_config selfPointer.state 0x3001
    rw [show selfPointer.state.mem = Memory.zeroed.write 0x3001 0x3001 from rfl,
      Memory.read_write_self] at h
    exact h
  have htarget : target 0xB200 selfPointer.state.config = some 0x3001 := rfl
  have hnext (c : Config) : (next 0xB200 c).mem =
      Function.update c.mem (c.mem (pcRelative 0xB200 9 c).toNat) (c.reg (register 0xB200 9)) := rfl
  have haddress : (pcRelative 0xB200 9 selfPointer.state.config).toNat = 0x3001 := rfl
  obtain ⟨outcome, ho⟩ := hok.2 fun x hx => by
    rw [htarget, Option.mem_some_iff] at hx
    subst hx
    decide
  obtain ⟨rfl, -, hc⟩ := hres outcome ho
  refine ⟨hpc, hop, step, hs, ho, BitVec.eq_of_toNat_eq ?_⟩
  rw [← State.mem_config, hc, hnext, haddress, hptr]
  exact Function.update_self _ _ _

end Machine

end Lc3
