import Lc3.Proofs.Addressing
import Lc3.Proofs.Contracts

/-! # Instructions check before they change

An instruction works in place: one after the other it checks register numbers and addresses, reads
registers and cells, and overwrites registers and cells, and what it has overwritten before a check
fails stays overwritten. `Instruction.perform` has no state at a failure, so it cannot tell. Here
every instruction is written out access by access, with the state at hand when it fails, and shown
to do what `perform` says and to change nothing before its last check.

* `InPlace`, `Instruction.inPlace`: the accesses of an instruction.
* `Check`, `Instruction.checks`: what an instruction checks, in this order.
* `firstFault`: the fault of the first check that fails.
* `Decided`: the two accounts of an instruction agree, and the checks decide how it ends. There is
  one rule for each kind of check, and `Instruction.decided` puts them together.
* `checks_precede_changes`: when an instruction succeeds, what it reports if it does not, and what
  it leaves then.
-/

namespace Lc3
set_option autoImplicit false
open Reference

/-! ## Working in place -/

/-- A sequence of accesses to a state. If one of them fails, the state is left as it is then. -/
abbrev InPlace := EStateM Fault State

namespace InPlace

/-- Goes on with the result of a check, or fails with its fault. -/
def ensure {α : Type} : Except Fault α → InPlace α
  | .ok a => pure a
  | .error f => throw f

def readRegister (r : Byte) : InPlace Word := do
  let s ← get
  ensure (Fault.ofMisuse (s.regs.read r))

def writeRegister (r : Byte) (w : Word) : InPlace Unit := do
  let s ← get
  let regs ← ensure (Fault.ofMisuse (s.regs.write r w))
  set { s with regs }

/-- Overwrites a register, then reads it again for the condition code. -/
def writeResult (r : Byte) (w : Word) : InPlace Unit := do
  writeRegister r w
  let written ← readRegister r
  modify fun s => { s with regs := { s.regs with condition := .ofWord written } }

def readOperand : Operand → InPlace Word
  | .register r => readRegister r
  | .immediate value => pure (BitVec.ofInt 16 value)

def address (base : Word) (offset : Int) : InPlace Word :=
  ensure (Fault.ofExecution (effectiveAddress base offset))

def getPc : InPlace Word :=
  return (← get).regs.pc

def setPc (w : Word) : InPlace Unit :=
  modify fun s => { s with regs := { s.regs with pc := w } }

def load (a : Word) : InPlace Word :=
  return (← get).mem.read a

def store (a w : Word) : InPlace Unit :=
  modify fun s => { s with mem := s.mem.write a w }

variable {s t : State} {r : Byte}

theorem bind_of_ok {ε σ α β : Type} {a : α} {first : EStateM ε σ α} {next : α → EStateM ε σ β}
    {s t : σ} (h : first s = .ok a t) : (first >>= next) s = next a t := by
  show first.bind next s = _
  rw [EStateM.bind, h]

theorem bind_of_error {ε σ α β : Type} {e : ε} {first : EStateM ε σ α} {next : α → EStateM ε σ β}
    {s t : σ} (h : first s = .error e t) : (first >>= next) s = .error e t := by
  show first.bind next s = _
  rw [EStateM.bind, h]

theorem readRegister_eq_ok (hr : r.toNat < 8) :
    readRegister r s = .ok s.regs.general[r.toNat] s := by
  show ensure (Fault.ofMisuse (s.regs.read r)) s = _
  rw [RegisterFile.read_eq_ok hr]
  rfl

theorem writeRegister_eq_ok (w : Word) (hr : r.toNat < 8) :
    writeRegister r w s =
      .ok () { s with regs := { s.regs with general := s.regs.general.set r.toNat w hr } } := by
  show (ensure (Fault.ofMisuse (s.regs.write r w)) >>= fun regs => set { s with regs }) s = _
  rw [RegisterFile.write_eq_ok w hr]
  rfl

/-- The register that is read for the condition code is the one that was just written. -/
theorem writeResult_eq_ok (w : Word) (hr : r.toNat < 8) :
    writeResult r w s = .ok () { s with regs := s.regs.withResult ⟨r.toNat, hr⟩ w } := by
  unfold writeResult
  rw [bind_of_ok (writeRegister_eq_ok w hr), bind_of_ok (readRegister_eq_ok hr),
    Vector.getElem_set_self]
  rfl

theorem writeResult_eq_error (w : Word) (hr : 8 ≤ r.toNat) :
    writeResult r w s = .error (.misuse (.writeRegister r)) s := by
  show (ensure (Fault.ofMisuse (s.regs.write r w)) >>= _ >>= _) s = _
  rw [RegisterFile.write_eq_error w hr]
  rfl

end InPlace

namespace Instruction
open InPlace

/-- The accesses of an instruction in their order. JSR and JSRR move PC before they save the return
address. -/
def inPlace : Instruction → InPlace Unit
  | add dr sr operand => do
    let left ← readRegister sr
    let right ← readOperand operand
    writeResult dr (left + right)
  | and dr sr operand => do
    let left ← readRegister sr
    let right ← readOperand operand
    writeResult dr (left &&& right)
  | not dr sr => do
    let value ← readRegister sr
    writeResult dr (~~~value)
  | ld dr offset => do
    let a ← address (← getPc) offset
    writeResult dr (← load a)
  | ldi dr offset => do
    let a ← address (← getPc) offset
    let pointer ← load a
    writeResult dr (← load pointer)
  | ldr dr base offset => do
    let start ← readRegister base
    let a ← address start offset
    writeResult dr (← load a)
  | lea dr offset => do
    let a ← address (← getPc) offset
    writeResult dr a
  | st sr offset => do
    let a ← address (← getPc) offset
    store a (← readRegister sr)
  | sti sr offset => do
    let a ← address (← getPc) offset
    let pointer ← load a
    store pointer (← readRegister sr)
  | str sr base offset => do
    let start ← readRegister base
    let a ← address start offset
    store a (← readRegister sr)
  | br n z p offset => do
    let s ← get
    if s.regs.condition.selectedBy n z p then
      setPc (← address s.regs.pc offset)
  | jmp base => do
    setPc (← readRegister base)
  | jsr offset => do
    let back ← getPc
    setPc (← address back offset)
    writeRegister 7 back
  | jsrr base => do
    let back ← getPc
    setPc (← readRegister base)
    writeRegister 7 back
  | trap _ => do
    writeRegister 7 (← getPc)

end Instruction

/-! ## Checks -/

inductive Check where
  /-- register `r` is there to be read -/
  | read (r : Byte)
  /-- register `r` is there to be written -/
  | write (r : Byte)
  /-- the integer is an address -/
  | address (x : Int)

namespace Check

def Holds : Check → Prop
  | read r | write r => r.toNat ≤ 7
  | address x => InSpace x

instance : DecidablePred Holds
  | read r | write r => inferInstanceAs (Decidable (r.toNat ≤ 7))
  | address x => inferInstanceAs (Decidable (InSpace x))

/-- What is reported if the check fails. -/
def fault : Check → Fault
  | read r => .misuse (.readRegister r)
  | write r => .misuse (.writeRegister r)
  | address x => .execution (.addressOutOfRange x)

end Check

def firstFault : List Check → Option Fault
  | [] => none
  | c :: cs => if c.Holds then firstFault cs else some c.fault

section FirstFault
variable {c : Check} {cs : List Check} {f : Fault}

theorem firstFault_passed (h : c.Holds) (cs : List Check) :
    firstFault (c :: cs) = firstFault cs :=
  if_pos h

theorem firstFault_failed (h : ¬c.Holds) (cs : List Check) :
    firstFault (c :: cs) = some c.fault :=
  if_neg h

theorem firstFault_eq_none_iff : firstFault cs = none ↔ ∀ c ∈ cs, c.Holds := by
  induction cs with
  | nil => simp [firstFault]
  | cons c cs ih =>
    rw [List.forall_mem_cons]
    by_cases h : c.Holds
    · rw [firstFault_passed h, ih, and_iff_right h]
    · rw [firstFault_failed h]
      exact iff_of_false (Option.some_ne_none _) fun hall => h hall.1

theorem firstFault_eq_some_iff :
    firstFault cs = some f ↔ ∃ passed c rest, cs = passed ++ c :: rest ∧
      (∀ p ∈ passed, p.Holds) ∧ ¬c.Holds ∧ f = c.fault := by
  constructor
  · intro h
    induction cs with
    | nil => cases h
    | cons c cs ih =>
      by_cases hc : c.Holds
      · rw [firstFault_passed hc] at h
        obtain ⟨passed, d, rest, rfl, hpassed, hd, hf⟩ := ih h
        exact ⟨c :: passed, d, rest, rfl, List.forall_mem_cons.2 ⟨hc, hpassed⟩, hd, hf⟩
      · rw [firstFault_failed hc] at h
        cases h
        exact ⟨[], c, cs, rfl, List.forall_mem_nil _, hc, rfl⟩
  · rintro ⟨passed, c, rest, rfl, hpassed, hc, rfl⟩
    induction passed with
    | nil => exact firstFault_failed hc rest
    | cons p passed ih =>
      rw [List.forall_mem_cons] at hpassed
      rw [List.cons_append, firstFault_passed hpassed.1]
      exact ih hpassed.2

end FirstFault

/-- What register number `r` holds, and 0 if there is no such register. -/
def RegisterFile.content (regs : RegisterFile) (r : Byte) : Word :=
  regs.general[r.toNat]?.getD 0

theorem RegisterFile.content_eq {regs : RegisterFile} {r : Byte} (hr : r.toNat < 8) :
    regs.content r = regs.general[r.toNat] := by
  rw [content, Vector.getElem?_eq_getElem hr, Option.getD_some]

def Operand.checks : Operand → List Check
  | register r => [.read r]
  | immediate _ => []

namespace Instruction

/-- What an instruction checks, first to last. A base register comes before the address that is
formed from it, and the destination comes last. A branch that is not taken checks nothing. -/
def checks (s : State) : Instruction → List Check
  | add dr sr operand | and dr sr operand => .read sr :: (operand.checks ++ [.write dr])
  | not dr sr => [.read sr, .write dr]
  | ld dr offset | ldi dr offset | lea dr offset =>
    [.address (s.regs.pc.toNat + offset), .write dr]
  | ldr dr base offset =>
    [.read base, .address ((s.regs.content base).toNat + offset), .write dr]
  | st sr offset | sti sr offset => [.address (s.regs.pc.toNat + offset), .read sr]
  | str sr base offset =>
    [.read base, .address ((s.regs.content base).toNat + offset), .read sr]
  | br n z p offset =>
    if s.regs.condition.selectedBy n z p then [.address (s.regs.pc.toNat + offset)] else []
  | jmp base | jsrr base => [.read base]
  | jsr offset => [.address (s.regs.pc.toNat + offset)]
  | trap _ => []

/-- Every register number of an instruction is checked, and nothing else is but its address. -/
theorem forall_checks_iff (i : Instruction) (s : State) :
    (∀ c ∈ i.checks s, c.Holds) ↔
      (∀ r ∈ i.registers, r.toNat ≤ 7) ∧ ∀ x, .address x ∈ i.checks s → InSpace x := by
  cases i with
  | jmp | jsrr | jsr | trap => simp [checks, registers, Check.Holds]
  | br n z p offset =>
    rw [checks]
    split <;> simp [registers, Check.Holds]
  | not | ld | ldi | lea | st | sti | ldr | str =>
    simp [checks, registers, Check.Holds]
    tauto
  | add dr sr operand | and dr sr operand =>
    cases operand
    all_goals
      simp [checks, registers, Operand.checks, Operand.registers, Check.Holds]
      tauto

end Instruction

/-! ## One rule for each kind of check -/

/-- Begun in state `s`, an instruction ends in place with `x`, and without a state at failures with
`y`. The two agree: they leave the same state, or they fail alike and leave `s`. The checks decide
which of it happens, and with which fault. -/
def Decided (cs : List Check) (s : State) (x : EStateM.Result Fault State Unit)
    (y : Except Fault State) : Prop :=
  match y with
  | .ok t => x = .ok () t ∧ firstFault cs = none
  | .error f => x = .error f s ∧ firstFault cs = some f

namespace Decided
open InPlace
variable {s : State} {cs : List Check} {next : Word → InPlace Unit}
  {next' : Word → Except Fault State}

theorem passed {c : Check} {x : EStateM.Result Fault State Unit} {y : Except Fault State}
    (hc : c.Holds) (h : Decided cs s x y) : Decided (c :: cs) s x y := by
  unfold Decided at h ⊢
  rw [firstFault_passed hc]
  exact h

theorem failed {c : Check} (hc : ¬c.Holds) :
    Decided (c :: cs) s (.error c.fault s) (.error c.fault) :=
  ⟨rfl, firstFault_failed hc cs⟩

theorem read {r : Byte} (h : ∀ hr : r.toNat < 8,
      Decided cs s (next s.regs.general[r.toNat] s) (next' s.regs.general[r.toNat])) :
    Decided (.read r :: cs) s ((readRegister r >>= next) s) (liftM (s.regs.read r) >>= next') := by
  by_cases hr : r.toNat < 8
  · rw [bind_of_ok (readRegister_eq_ok hr), RegisterFile.read_eq_ok hr]
    exact passed (Nat.le_of_lt_succ hr) (h hr)
  · have hread : s.regs.read r = .error (.readRegister r) :=
      RegisterFile.read_eq_error (Nat.not_lt.1 hr)
    show Decided _ s ((InPlace.ensure (Fault.ofMisuse (s.regs.read r)) >>= next) s) _
    rw [hread]
    exact failed (c := .read r) fun hle => hr (Nat.lt_succ_of_le hle)

theorem address {base : Word} {offset : Int} (h : ∀ a, Decided cs s (next a s) (next' a)) :
    Decided (.address (base.toNat + offset) :: cs) s ((InPlace.address base offset >>= next) s)
      (liftM (effectiveAddress base offset) >>= next') := by
  unfold InPlace.address
  by_cases hin : InSpace (base.toNat + offset)
  · obtain ⟨a, ha, -⟩ := effectiveAddress_of_inSpace hin
    rw [ha]
    exact passed hin (h a)
  · rw [effectiveAddress_of_not_inSpace hin]
    exact failed (c := .address _) hin

theorem writeResult (r : Byte) (w : Word) :
    Decided [.write r] s (InPlace.writeResult r w s)
      (liftM (s.regs.writeResult r w) >>= fun regs => pure { s with regs }) := by
  by_cases hr : r.toNat < 8
  · rw [writeResult_eq_ok w hr, s.regs.writeResult_eq_ok w hr]
    exact passed (Nat.le_of_lt_succ hr) ⟨rfl, rfl⟩
  · have hge : 8 ≤ r.toNat := Nat.not_lt.1 hr
    rw [writeResult_eq_error w hge, RegisterFile.writeResult, RegisterFile.write_eq_error w hge]
    exact failed (c := .write r) fun hle => hr (Nat.lt_succ_of_le hle)

variable {x : EStateM.Result Fault State Unit} {y : Except Fault State}

theorem exists_ok_iff (h : Decided cs s x y) : (∃ t, x = .ok () t) ↔ firstFault cs = none := by
  unfold Decided at h
  cases y with
  | ok t => exact iff_of_true ⟨t, h.1⟩ h.2
  | error f =>
    rw [h.1, h.2]
    exact iff_of_false (fun ⟨_, ht⟩ => nomatch ht) (Option.some_ne_none f)

theorem eq_error_iff (h : Decided cs s x y) (f : Fault) (t : State) :
    x = .error f t ↔ t = s ∧ firstFault cs = some f := by
  unfold Decided at h
  cases y with
  | ok t' =>
    rw [h.1, h.2]
    exact iff_of_false (fun ht => nomatch ht) fun ht => nomatch ht.2
  | error f' =>
    rw [h.1, h.2, EStateM.Result.error.injEq, Option.some.injEq, and_comm, eq_comm]

/-- The accounts leave the same state, and fail alike. -/
theorem agree (h : Decided cs s x y) :
    (∀ t, y = .ok t ↔ x = .ok () t) ∧ ∀ f, y = .error f ↔ x = .error f s := by
  unfold Decided at h
  cases y with
  | ok t =>
    rw [h.1]
    exact ⟨fun t => by simp, fun f => iff_of_false (fun hf => nomatch hf) (fun hf => nomatch hf)⟩
  | error f =>
    rw [h.1]
    exact ⟨fun t => iff_of_false (fun ht => nomatch ht) (fun ht => nomatch ht), fun f => by simp⟩

end Decided

namespace Instruction
open Decided
variable {s : State}

theorem liftM_bind {α β : Type} (first : Except Misuse α) (rest : α → Except Misuse β) :
    (liftM (first >>= rest) : Except Fault β) = liftM first >>= fun a => liftM (rest a) := by
  cases first <;> rfl

/-- ADD and AND: the second operand is checked between the first one and the destination, if it is
a register. -/
theorem decided_combine (f : Word → Word → Word) (dr sr : Byte) (operand : Operand) :
    Decided (.read sr :: (operand.checks ++ [.write dr])) s
      ((do
        let left ← InPlace.readRegister sr
        let right ← InPlace.readOperand operand
        InPlace.writeResult dr (f left right) : InPlace Unit) s)
      (liftM (s.regs.combine f dr sr operand) >>= fun regs => pure { s with regs }) := by
  simp only [RegisterFile.combine, liftM_bind, bind_assoc]
  refine .read fun _ => ?_
  cases operand with
  | register r => exact .read fun _ => writeResult _ _
  | immediate value => exact writeResult _ _

/-- Every instruction is decided by its checks. Each proof goes through the instruction access by
access, and what is left behind the last check changes the state and cannot fail. -/
theorem decided (i : Instruction) (s : State) :
    Decided (i.checks s) s (i.inPlace s) (i.perform s) := by
  cases i with
  | add dr sr operand | and dr sr operand =>
    simp only [perform, effect, bind_assoc, pure_bind]
    exact decided_combine _ dr sr operand
  | not dr sr =>
    simp only [perform, effect, bind_assoc, pure_bind]
    exact .read fun _ => writeResult _ _
  | ld dr offset | ldi dr offset | lea dr offset =>
    simp only [perform, effect, bind_assoc, pure_bind]
    exact .address fun _ => writeResult _ _
  | ldr dr base offset =>
    simp only [perform, effect, bind_assoc, pure_bind, checks]
    refine .read fun hb => ?_
    rw [RegisterFile.content_eq hb]
    exact .address fun _ => writeResult _ _
  | st sr offset | sti sr offset =>
    simp only [perform, effect, bind_assoc, pure_bind]
    exact .address fun _ => .read fun _ => ⟨rfl, rfl⟩
  | str sr base offset =>
    simp only [perform, effect, bind_assoc, pure_bind, checks]
    refine .read fun hb => ?_
    rw [RegisterFile.content_eq hb]
    exact .address fun _ => .read fun _ => ⟨rfl, rfl⟩
  | br n z p offset =>
    simp only [perform, effect, checks]
    by_cases htaken : s.regs.condition.selectedBy n z p = true
    · have hin : (br n z p offset).inPlace s =
          (InPlace.address s.regs.pc offset >>= InPlace.setPc) s := by
        show (if _ then _ else _ : InPlace Unit) s = _
        rw [if_pos htaken]
      rw [if_pos htaken, if_pos htaken, hin]
      simp only [bind_assoc, pure_bind]
      exact .address fun _ => ⟨rfl, rfl⟩
    · have hin : (br n z p offset).inPlace s = .ok () s := by
        show (if _ then _ else _ : InPlace Unit) s = _
        rw [if_neg htaken]
        rfl
      rw [if_neg htaken, if_neg htaken, hin]
      exact ⟨rfl, rfl⟩
  | jmp base | jsrr base =>
    simp only [perform, effect, bind_assoc, pure_bind]
    exact .read fun _ => ⟨rfl, rfl⟩
  | jsr offset =>
    simp only [perform, effect, bind_assoc, pure_bind]
    exact .address fun _ => ⟨rfl, rfl⟩
  | trap vector => exact ⟨rfl, rfl⟩

/-- An instruction succeeds iff every register that it names exists and every address that it forms
is one. Otherwise it reports the first of its checks that fails, and leaves registers, PC, condition
code and memory as they were, also where it works in place. A register that does not exist is
reported with its number and with what it was wanted for. -/
theorem checks_precede_changes (i : Instruction) (s : State) :
    ((∃ t, i.inPlace s = .ok () t) ↔
        (∀ r ∈ i.registers, r.toNat ≤ 7) ∧ ∀ x, .address x ∈ i.checks s → InSpace x) ∧
      (∀ f t, i.inPlace s = .error f t ↔ t = s ∧ ∃ passed c rest,
        i.checks s = passed ++ c :: rest ∧ (∀ p ∈ passed, p.Holds) ∧ ¬c.Holds ∧ f = c.fault) ∧
      (∀ t, i.perform s = .ok t ↔ i.inPlace s = .ok () t) ∧
      (∀ f, i.perform s = .error f ↔ i.inPlace s = .error f s) ∧
      ∀ r : Byte,
        (∃ cause, (Check.read r).fault = .misuse cause ∧
          cause.message = s!"Invalid general purpose register get: {r.toNat}") ∧
        ∃ cause, (Check.write r).fault = .misuse cause ∧
          cause.message = s!"Invalid general purpose register set: {r.toNat}" := by
  have hdecided := i.decided s
  refine ⟨?_, fun f t => ?_, hdecided.agree.1, hdecided.agree.2, fun r => ?_⟩
  · rw [hdecided.exists_ok_iff, firstFault_eq_none_iff, forall_checks_iff]
  · rw [hdecided.eq_error_iff, firstFault_eq_some_iff]
  · exact ⟨⟨_, rfl, rfl⟩, _, rfl, rfl⟩

/-- STR of a register that does not exist, to an address below the first, fails for the address; if
the base register does not exist either, it fails for that. ADD finds its source before its
destination. STI through a cell that points to itself succeeds, and a branch beyond the last address
does as long as it is not taken. -/
theorem checks_precede_changes_selfPointer :
    let s := Machine.selfPointer.state
    (str 9 1 (-6)).inPlace s = .error (.execution (.addressOutOfRange (-1))) s ∧
      (str 9 8 (-6)).inPlace s = .error (.misuse (.readRegister 8)) s ∧
      (add 8 9 (.register 10)).inPlace s = .error (.misuse (.readRegister 9)) s ∧
      (add 8 1 (.immediate 1)).perform s = .error (.misuse (.writeRegister 8)) ∧
      (∃ t, (sti 1 1).inPlace s = .ok () t) ∧
      ∃ t, (br true false true 0xFFFF).inPlace s = .ok () t := by
  refine ⟨?_, ?_, ?_, ?_, ?_, ?_⟩
  · obtain ⟨-, herror, -⟩ := checks_precede_changes (str 9 1 (-6)) Machine.selfPointer.state
    exact (herror _ _).2 ⟨rfl, [.read 1], .address (-1), [.read 9], rfl, by decide, by decide, rfl⟩
  · obtain ⟨-, herror, -⟩ := checks_precede_changes (str 9 8 (-6)) Machine.selfPointer.state
    exact (herror _ _).2 ⟨rfl, [], .read 8, _, rfl, by decide, by decide, rfl⟩
  · obtain ⟨-, herror, -⟩ :=
      checks_precede_changes (add 8 9 (.register 10)) Machine.selfPointer.state
    exact (herror _ _).2 ⟨rfl, [], .read 9, _, rfl, by decide, by decide, rfl⟩
  · obtain ⟨-, herror, -, hperform, -⟩ :=
      checks_precede_changes (add 8 1 (.immediate 1)) Machine.selfPointer.state
    refine (hperform _).2 ((herror _ _).2 ?_)
    exact ⟨rfl, [.read 1], .write 8, [], rfl, by decide, by decide, rfl⟩
  · obtain ⟨hok, -⟩ := checks_precede_changes (sti 1 1) Machine.selfPointer.state
    refine hok.2 ⟨by decide, fun x hx => ?_⟩
    simp only [checks, List.mem_cons, List.not_mem_nil, or_false, reduceCtorEq,
      Check.address.injEq] at hx
    subst hx
    decide
  · obtain ⟨hok, -⟩ :=
      checks_precede_changes (br true false true 0xFFFF) Machine.selfPointer.state
    refine hok.2 ⟨by decide, fun x hx => ?_⟩
    cases hx

end Instruction

end Lc3
