import Lc3.Proofs.Refinement

/-! # Addressing modes agree

Five instructions form an address from PC, and two from a base register. Whatever the first five
reach, the other two reach through a register that holds the address: LEA puts the address of a cell
there, and LD the address that the cell holds. Instructions are performed here without a machine
around them, with PC as it stands.

* `Instruction.pcRelative`: the five, with a register and the same offset for each.
* `perform_lea` to `perform_str`: the state that each of the seven leaves if its address exists.
* `perform_ldr_through`, `perform_str_through`: LDR and STR through a register that was just set.
* `addressing_modes_agree`: all pairs of modes.
-/

namespace Lc3
set_option autoImplicit false
open Reference

theorem effectiveAddress_zero (base : Word) : effectiveAddress base 0 = .ok base := by
  rw [effectiveAddress_eq_ok_iff, Int.add_zero]

/-! ## Results -/

namespace RegisterFile
variable (regs : RegisterFile) {r : Byte}

theorem writeResult_eq_ok (w : Word) (hr : r.toNat < 8) :
    regs.writeResult r w = .ok (regs.withResult ⟨r.toNat, hr⟩ w) := by
  rw [writeResult, write_eq_ok w hr]
  rfl

end RegisterFile

/-! ## Instructions with an address -/

namespace Instruction
variable {s : State} {a : Word} {offset : Int} {d r q base : Byte}

/-- The instructions that address relative to PC. -/
def pcRelative (r d q : Byte) (offset : Int) : List Instruction :=
  [.lea r offset, .ld d offset, .ldi d offset, .st q offset, .sti q offset]

theorem perform_pcRelative_error {i : Instruction} {e : ExecutionError}
    (hi : i ∈ pcRelative r d q offset) (he : effectiveAddress s.regs.pc offset = .error e) :
    i.perform s = .error (.execution e) := by
  simp only [pcRelative, List.mem_cons, List.not_mem_nil, or_false] at hi
  obtain rfl | rfl | rfl | rfl | rfl := hi
  all_goals
    simp only [perform, effect, he]
    rfl

section
variable (ha : effectiveAddress s.regs.pc offset = .ok a)
include ha

theorem perform_lea (hr : r.toNat < 8) :
    (lea r offset).perform s = .ok { s with regs := s.regs.withResult ⟨r.toNat, hr⟩ a } := by
  simp only [perform, effect, ha, s.regs.writeResult_eq_ok _ hr]
  rfl

theorem perform_ld (hd : d.toNat < 8) :
    (ld d offset).perform s =
      .ok { s with regs := s.regs.withResult ⟨d.toNat, hd⟩ (s.mem.read a) } := by
  simp only [perform, effect, ha, liftM_ok_bind, s.regs.writeResult_eq_ok _ hd]
  rfl

theorem perform_ldi (hd : d.toNat < 8) :
    (ldi d offset).perform s =
      .ok { s with regs := s.regs.withResult ⟨d.toNat, hd⟩ (s.mem.read (s.mem.read a)) } := by
  simp only [perform, effect, ha, s.regs.writeResult_eq_ok _ hd]
  rfl

theorem perform_st (hq : q.toNat < 8) :
    (st q offset).perform s = .ok { s with mem := s.mem.write a s.regs.general[q.toNat] } := by
  simp only [perform, effect, ha, RegisterFile.read_eq_ok hq]
  rfl

theorem perform_sti (hq : q.toNat < 8) :
    (sti q offset).perform s =
      .ok { s with mem := s.mem.write (s.mem.read a) s.regs.general[q.toNat] } := by
  simp only [perform, effect, ha, RegisterFile.read_eq_ok hq]
  rfl

end

section
variable (hb : base.toNat < 8) (ha : effectiveAddress s.regs.general[base.toNat] offset = .ok a)
include ha

theorem perform_ldr (hd : d.toNat < 8) :
    (ldr d base offset).perform s =
      .ok { s with regs := s.regs.withResult ⟨d.toNat, hd⟩ (s.mem.read a) } := by
  simp only [perform, effect, RegisterFile.read_eq_ok hb, liftM_ok_bind, ha,
    s.regs.writeResult_eq_ok _ hd]
  rfl

theorem perform_str (hq : q.toNat < 8) :
    (str q base offset).perform s =
      .ok { s with mem := s.mem.write a s.regs.general[q.toNat] } := by
  simp only [perform, effect, RegisterFile.read_eq_ok hb, RegisterFile.read_eq_ok hq,
    liftM_ok_bind, ha]
  rfl

end
end Instruction

/-! ## Through a register -/

namespace Instruction
variable {s : State} {d r q : Byte}

theorem effectiveAddress_withResult (regs : RegisterFile) (a : Word) (hr : r.toNat < 8) :
    effectiveAddress (regs.withResult ⟨r.toNat, hr⟩ a).general[r.toNat] 0 = .ok a := by
  have hbase : (regs.withResult ⟨r.toNat, hr⟩ a).general[r.toNat] = a :=
    regs.general_withResult_self ⟨r.toNat, hr⟩ a
  rw [hbase]
  exact effectiveAddress_zero a

/-- LDR through a register that was just set to `a` finds the word at `a`. -/
theorem perform_ldr_through (a : Word) (hd : d.toNat < 8) (hr : r.toNat < 8) :
    ∃ t, (ldr d r 0).perform { s with regs := s.regs.withResult ⟨r.toNat, hr⟩ a } = .ok t ∧
      t.DiffersAt r d { s with regs := s.regs.withResult ⟨d.toNat, hd⟩ (s.mem.read a) } := by
  have hldr := perform_ldr (s := { s with regs := s.regs.withResult ⟨r.toNat, hr⟩ a }) hr
    (effectiveAddress_withResult s.regs a hr) hd
  refine ⟨_, hldr, fun k hk => ?_, rfl, rfl, rfl⟩
  exact s.regs.general_withResult_withResult _ a
    (hk.imp (fun h e => h (congrArg Fin.val e)) fun h => Fin.ext h)

/-- STR through a register that was just set to `a` writes to the cell at `a`. If it is that very
register which is stored, its former content is lost. -/
theorem perform_str_through (a : Word) (hq : q.toNat < 8) (hr : r.toNat < 8) :
    ∃ t, (str q r 0).perform { s with regs := s.regs.withResult ⟨r.toNat, hr⟩ a } = .ok t ∧
      (q ≠ r → t.mem = s.mem.write a s.regs.general[q.toNat]) := by
  have hstr := perform_str (s := { s with regs := s.regs.withResult ⟨r.toNat, hr⟩ a }) hr
    (effectiveAddress_withResult s.regs a hr) hq
  refine ⟨_, hstr, fun hne => ?_⟩
  have hval : (⟨q.toNat, hq⟩ : Fin 8) ≠ ⟨r.toNat, hr⟩ :=
    fun e => hne (BitVec.eq_of_toNat_eq (Fin.mk.inj e))
  exact congrArg (s.mem.write a) (s.regs.general_withResult_of_ne a hval)

/-- The five instructions that address relative to PC succeed together, or fail together with the
integer that is no address. If they succeed, LDR does what LD does through the address that LEA
found, and what LDI does through the address that LD found: it leaves the same state except for the
register that it went through. STR does to the memory what ST and STI do, as long as it does not
store that register itself. Neither LDR nor STR can fail there. -/
theorem addressing_modes_agree (s : State) (d r q : Byte) (offset : Int) (hd : d.toNat ≤ 7)
    (hr : r.toNat ≤ 7) (hq : q.toNat ≤ 7) :
    (¬InSpace (s.regs.pc.toNat + offset) → ∀ i ∈ pcRelative r d q offset,
      i.perform s = .error (.execution (.addressOutOfRange (s.regs.pc.toNat + offset)))) ∧
    (InSpace (s.regs.pc.toNat + offset) → ∃ viaLea viaLd byLd byLdi bySt bySti,
      (lea r offset).perform s = .ok viaLea ∧ (ld r offset).perform s = .ok viaLd ∧
      (ld d offset).perform s = .ok byLd ∧ (ldi d offset).perform s = .ok byLdi ∧
      (st q offset).perform s = .ok bySt ∧ (sti q offset).perform s = .ok bySti ∧
      (∃ t, (ldr d r 0).perform viaLea = .ok t ∧ t.DiffersAt r d byLd) ∧
      (∃ t, (ldr d r 0).perform viaLd = .ok t ∧ t.DiffersAt r d byLdi) ∧
      (∃ t, (str q r 0).perform viaLea = .ok t ∧ (q ≠ r → t.mem = bySt.mem)) ∧
      ∃ t, (str q r 0).perform viaLd = .ok t ∧ (q ≠ r → t.mem = bySti.mem)) := by
  have hd : d.toNat < 8 := Nat.lt_succ_of_le hd
  have hr : r.toNat < 8 := Nat.lt_succ_of_le hr
  have hq : q.toNat < 8 := Nat.lt_succ_of_le hq
  refine ⟨fun hout i hi => ?_, fun hin => ?_⟩
  · exact perform_pcRelative_error hi (effectiveAddress_of_not_inSpace hout)
  · obtain ⟨a, ha, -⟩ := effectiveAddress_of_inSpace hin
    exact ⟨_, _, _, _, _, _, perform_lea ha hr, perform_ld ha hr, perform_ld ha hd,
      perform_ldi ha hd, perform_st ha hq, perform_sti ha hq, perform_ldr_through a hd hr,
      perform_ldr_through (s.mem.read a) hd hr, perform_str_through a hq hr,
      perform_str_through (s.mem.read a) hq hr⟩

/-- The cell behind PC is a pointer to itself. STI of R1, and STR of it through R2 after LD, overwrite
the pointer alike; LD and LDR through R1 itself find it. No mode reaches what is before the first
address. -/
theorem addressing_modes_agree_selfPointer :
    let s := Machine.selfPointer.state
    (1 : Byte).toNat ≤ 7 ∧ (2 : Byte).toNat ≤ 7 ∧ InSpace (s.regs.pc.toNat + 1) ∧
      (∃ viaLd t, (ld 2 1).perform s = .ok viaLd ∧ (str 1 2 0).perform viaLd = .ok t ∧
        (sti 1 1).perform s = .ok { s with mem := t.mem } ∧ t.mem.read 0x3001 = 5) ∧
      (∃ viaLd byLdi t, (ld 1 1).perform s = .ok viaLd ∧ (ldi 1 1).perform s = .ok byLdi ∧
        (ldr 1 1 0).perform viaLd = .ok t ∧ t.DiffersAt 1 1 byLdi) ∧
      ∀ i ∈ pcRelative 2 1 1 (-0x3001),
        i.perform s = .error (.execution (.addressOutOfRange (-1))) := by
  have h1 : (1 : Byte).toNat ≤ 7 := by decide
  have h2 : (2 : Byte).toNat ≤ 7 := by decide
  have hin : InSpace (Machine.selfPointer.state.regs.pc.toNat + 1) := by decide
  have hptr : Machine.selfPointer.state.mem.read 0x3001 = 0x3001 := Memory.read_write_self _ _ _
  have hsti : (sti 1 1).perform Machine.selfPointer.state =
      .ok { Machine.selfPointer.state with
        mem := Machine.selfPointer.state.mem.write 0x3001 5 } := by
    have hnext : effectiveAddress Machine.selfPointer.state.regs.pc 1 = .ok 0x3001 := rfl
    have h := perform_sti (q := 1) hnext (by decide)
    rw [hptr] at h
    exact h
  refine ⟨h1, h2, hin, ?_, ?_, ?_⟩
  · obtain ⟨-, hok⟩ := addressing_modes_agree Machine.selfPointer.state 1 2 1 1 h1 h2 h1
    obtain ⟨-, viaLd, -, -, -, bySti, -, hld, -, -, -, hsti', -, -, -, t, hstr, hmem⟩ := hok hin
    rw [hsti] at hsti'
    cases hsti'
    have hmem := hmem (by decide)
    refine ⟨viaLd, t, hld, hstr, ?_, ?_⟩
    · rw [hmem]
      exact hsti
    · rw [hmem]
      exact Memory.read_write_self _ _ _
  · obtain ⟨-, hok⟩ := addressing_modes_agree Machine.selfPointer.state 1 1 1 1 h1 h1 h1
    obtain ⟨-, viaLd, -, byLdi, -, -, -, hld, -, hldi, -, -, -, ⟨t, hldr, hdiff⟩, -⟩ := hok hin
    exact ⟨viaLd, byLdi, t, hld, hldi, hldr, hdiff⟩
  · obtain ⟨hfail, -⟩ :=
      addressing_modes_agree Machine.selfPointer.state 1 2 1 (-0x3001) h1 h2 h1
    exact hfail (by decide)

end Instruction

end Lc3
