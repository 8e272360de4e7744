import Lc3.Proofs.Results

/-! # Subroutines return

A call leaves the address behind itself in R7, and RET goes on at the address in R7. So a subroutine
returns behind its call if it ends with R7 as the call left it, whatever it did in between. JSRR R7
is both at once: it goes on at the address in R7 and leaves the one behind itself there, so two
routines can hand control to each other in turns.

* `Reference.IsCall`, `Reference.IsReturn`, `Reference.IsSwitch`: JSR and JSRR, RET, JSRR R7.
* `Machine.linked`: the machine with another R7 and another PC and nothing else changed.
* `Executes.linked_of_call`, `succeeds_return`, `succeeds_switch`: what the three do.
* `Machine.Stretch`: instructions, all successful, that end with R7 as they began.
* `Reference.SparesLink`, `Chain.link_eq`: instructions that leave R7 alone, one and any number.
* `Machine.Turns`, `Turns.resumes`: two routines in turns, and where they go on.
* `calls_return`: calls and returns, and turns.
-/

namespace Lc3
set_option autoImplicit false
open Reference

/-! ## Words -/

namespace Reference

/-- JSR or JSRR. -/
def IsCall (w : Word) : Prop :=
  bits w 12 4 = 0x4

/-- RET, which is JMP R7. -/
def IsReturn (w : Word) : Prop :=
  bits w 12 4 = 0xC ∧ bits w 6 3 = 7

/-- JSRR R7. -/
def IsSwitch (w : Word) : Prop :=
  IsCall w ∧ bits w 11 1 = 0 ∧ bits w 6 3 = 7

/-- The instruction is no call and no TRAP, and R7 is not where its result goes. -/
def SparesLink (w : Word) : Prop :=
  bits w 12 4 ≠ 0x4 ∧ bits w 12 4 ≠ 0xF ∧ (HasResult w → bits w 9 3 ≠ 7)

instance (w : Word) : Decidable (IsCall w) :=
  inferInstanceAs (Decidable (_ = _))

instance (w : Word) : Decidable (IsReturn w) :=
  inferInstanceAs (Decidable (_ ∧ _))

instance (w : Word) : Decidable (IsSwitch w) :=
  inferInstanceAs (Decidable (_ ∧ _))

instance (w : Word) : Decidable (SparesLink w) :=
  inferInstanceAs (Decidable (_ ∧ _))

theorem reg_next_of_sparesLink {w : Word} (h : SparesLink w) (c : Config) :
    (next w c).reg 7 = c.reg 7 := by
  obtain ⟨hcall, -, hdestination⟩ := h
  by_cases hres : HasResult w
  · obtain ⟨v, hv⟩ := exists_next_eq_result hres c
    have hne : 7 ≠ register w 9 := fun e => hdestination hres (congrArg Fin.val e).symm
    rw [hv]
    exact Function.update_of_ne hne _ _
  · exact congrFun ((next_of_not_hasResult hres c).2 hcall) 7

end Reference

namespace Machine

/-- The machine with `link` in R7 and `pc` in PC; nothing else changes. -/
def linked {σ : Type} (m : Machine σ) (link pc : Word) : Machine σ :=
  { m with state := { m.state with regs := { m.state.regs.withLink link with pc } } }

@[simp] theorem link_linked {σ : Type} (m : Machine σ) (link pc : Word) :
    (m.linked link pc).state.regs.link = link :=
  RegisterFile.link_withLink _ _

theorem linked_linked {σ : Type} (m : Machine σ) (link link' pc pc' : Word) :
    (m.linked link pc).linked link' pc' = m.linked link' pc' := by
  simp only [linked, RegisterFile.withLink, Vector.set_set]

variable {σ : Type} [TrapHandler σ] {m m' : Machine σ} {word : Word} {step : Step σ}

/-- Executing `word` succeeds, and leaves the machine as `m'`. -/
def Succeeds (m : Machine σ) (word : Word) (m' : Machine σ) : Prop :=
  ∃ step, m.execute word = .ok step ∧ step.result = .ok .proceed ∧ step.machine = m'

/-! ## Calls and returns -/

/-- A call that succeeds moves PC, and leaves the address behind itself in R7. -/
theorem Executes.linked_of_call (h : m.Executes word step) (hw : IsCall word) {outcome : Outcome}
    (hr : step.result = .ok outcome) :
    m.pc ≠ 0xFFFF ∧ ∃ target, step.machine = m.linked (m.pc + 1) target := by
  cases h with
  | lastAddress | illegal | rejected | refused => cases hr
  | served hpc hd hs =>
    have hop := ((decode_eq_trap_iff word).1 hd).1
    rw [hw] at hop
    cases hop
  | performed hpc hd hv he =>
    cases hd.symm.trans (decode_eq_ofBits word .jsr hw)
    refine ⟨hpc, ?_⟩
    rw [Instruction.ofBits] at he
    split at he
    all_goals
      obtain ⟨target, -, he⟩ := bind_eq_ok.1 he
      cases he
      exact ⟨target, rfl⟩

theorem succeeds_return (hw : IsReturn word) (hpc : m.pc ≠ 0xFFFF) :
    m.Succeeds word (m.setPc m.state.regs.link) := by
  have hd := decode_eq_ofBits word .jmp hw.1
  have hbase : register word 6 = 7 := Fin.ext hw.2
  have he : (Instruction.ofBits word .jmp).effect m.state.fetched m.state.mem =
      .ok { regs := { m.state.fetched with pc := m.state.regs.link } } := by
    simp only [Instruction.ofBits, Instruction.effect, RegisterFile.read_registerAt, hbase]
    rfl
  exact ⟨_, (Executes.performed hpc hd rfl he).execute_eq, rfl, rfl⟩

/-- JSRR R7 reads its target before the address behind it comes into R7. -/
theorem succeeds_switch (hw : IsSwitch word) (hpc : m.pc ≠ 0xFFFF) :
    m.Succeeds word (m.linked (m.pc + 1) m.state.regs.link) := by
  obtain ⟨hcall, hmode, hlink⟩ := hw
  have hbase : register word 6 = 7 := Fin.ext hlink
  have hd := decode_eq_ofBits word .jsr hcall
  have hi : Instruction.ofBits word .jsr = .jsrr (Instruction.registerAt word 6) := by
    rw [Instruction.ofBits, getLsbD_eq_bits, hmode]
    rfl
  have he : (Instruction.jsrr (Instruction.registerAt word 6)).effect m.state.fetched m.state.mem =
      .ok { regs := { m.state.fetched.withLink (m.pc + 1) with pc := m.state.regs.link } } := by
    simp only [Instruction.effect, RegisterFile.read_registerAt, hbase]
    rfl
  rw [hi] at hd
  exact ⟨_, (Executes.performed hpc hd rfl he).execute_eq, rfl, rfl⟩

/-! ## What is done in between -/

def Succeeding (es : List (Execution σ)) : Prop :=
  ∀ e ∈ es, ∃ outcome, e.step.result = .ok outcome

/-- Successful instructions of any kind lead from `m` to `m'`, and R7 is in the end what it was in
the beginning. -/
structure Stretch (m m' : Machine σ) : Prop where
  executed : ∃ es, m.Chain es m' ∧ Succeeding es
  link : m'.state.regs.link = m.state.regs.link

/-- Whether it succeeds or not, such an instruction leaves R7 as it is. -/
theorem Executes.link_eq (h : m.Executes word step) (hw : SparesLink word) :
    step.machine.state.regs.link = m.state.regs.link := by
  cases hr : step.result with
  | error e => rw [h.regs_eq_of_error hr]
  | ok outcome =>
    obtain ⟨-, hc⟩ := h.next_of_ok hw.2.1 hr
    exact BitVec.eq_of_toNat_eq
      ((congrArg (fun c => c.reg 7) hc).trans (reg_next_of_sparesLink hw _))

theorem Chain.link_eq {es : List (Execution σ)} (h : m.Chain es m')
    (hes : ∀ e ∈ es, SparesLink e.word) : m'.state.regs.link = m.state.regs.link := by
  induction h with
  | nil m => rfl
  | cons hs _ ih =>
    rw [List.forall_mem_cons] at hes
    exact (ih hes.2).trans (hs.link_eq hes.1)

/-! ## Turns -/

/-- One routine goes on from `m`, and hands over to the other one with the JSRR R7 at `a`. -/
def Turn (m : Machine σ) (a : Word) (m' : Machine σ) : Prop :=
  ∃ last switch, m.Stretch last ∧ last.pc = a ∧ IsSwitch switch ∧ last.Succeeds switch m'

/-- Turn after turn, with the addresses of the instructions that end them. -/
inductive Turns : Machine σ → List Word → Machine σ → Prop
  | nil (m : Machine σ) : Turns m [] m
  | cons {m m' m'' : Machine σ} {a : Word} {as : List Word} (first : m.Turn a m')
      (rest : Turns m' as m'') : Turns m (a :: as) m''

/-- The other routine goes on where R7 said, and R7 says where this one is to go on. -/
theorem Turn.ends {a : Word} (h : m.Turn a m') :
    m'.pc = m.state.regs.link ∧ m'.state.regs.link = a + 1 ∧ a ≠ 0xFFFF := by
  obtain ⟨last, switch, hlast, rfl, hw, step, hs, hr, rfl⟩ := h
  obtain ⟨hpc, -⟩ := (execute_eq_ok_iff.1 hs).linked_of_call hw.1 hr
  obtain ⟨step', hs', -, hm⟩ := succeeds_switch hw hpc
  cases hs.symm.trans hs'
  rw [hm]
  exact ⟨hlast.link, link_linked _ _ _, hpc⟩

/-- However many turns came before, the routine that goes on does so behind the instruction that
ended its last turn. -/
theorem Turns.resumes {as : List Word} {a b : Word} (h : m.Turns (as ++ [a, b]) m') :
    m'.pc.toNat = a.toNat + 1 ∧ m'.state.regs.link.toNat = b.toNat + 1 := by
  induction as generalizing m with
  | nil =>
    cases h with
    | cons first rest =>
      cases rest with
      | cons second rest =>
        cases rest
        obtain ⟨-, hlink, ha⟩ := first.ends
        obtain ⟨hpc', hlink', hb⟩ := second.ends
        rw [hpc', hlink, hlink']
        exact ⟨by bv_omega, by bv_omega⟩
  | cons first as ih =>
    cases h with
    | cons _ rest => exact ih rest

/-! ## All of it -/

/-- A call that succeeds leaves the address behind itself in R7. Whatever successful instructions
follow, if they end with R7 as the call left it, and all that leave R7 alone do, then RET succeeds,
moves PC to that address and changes nothing else. RET right after the call leaves everything but R7
and PC as it was before. Of two routines that hand over to each other with JSRR R7, each goes on
behind the instruction with which it handed over, however often they do so and whatever else they
execute, as long as that ends with R7 as it began. -/
theorem calls_return (m : Machine σ) :
    (∀ call step outcome, IsCall call → m.execute call = .ok step → step.result = .ok outcome →
      (m.pc + 1).toNat = m.pc.toNat + 1 ∧ step.machine.state.regs.link = m.pc + 1 ∧
      (∀ es last, step.machine.Chain es last → Succeeding es → (∀ e ∈ es, SparesLink e.word) →
        step.machine.Stretch last) ∧
      (∀ last ret, step.machine.Stretch last → last.pc ≠ 0xFFFF → IsReturn ret →
        last.Succeeds ret (last.setPc (m.pc + 1))) ∧
      ∀ ret, step.machine.pc ≠ 0xFFFF → IsReturn ret →
        step.machine.Succeeds ret (m.linked (m.pc + 1) (m.pc + 1))) ∧
    (∀ switch switch', IsSwitch switch → IsSwitch switch' → m.pc ≠ 0xFFFF →
      m.state.regs.link ≠ 0xFFFF → ∃ other, m.Succeeds switch other ∧
        other.pc = m.state.regs.link ∧
        other.Succeeds switch' (m.linked (m.state.regs.link + 1) (m.pc + 1))) ∧
    ∀ as a b m', m.Turns (as ++ [a, b]) m' →
      m'.pc.toNat = a.toNat + 1 ∧ m'.state.regs.link.toNat = b.toNat + 1 := by
  refine ⟨fun call step outcome hcall hs hr => ?_,
    fun switch switch' hswitch hswitch' hpc hlink => ?_, fun as a b m' h => h.resumes⟩
  · obtain ⟨hpc, target, hm⟩ := (execute_eq_ok_iff.1 hs).linked_of_call hcall hr
    have hlink : step.machine.state.regs.link = m.pc + 1 := by
      rw [hm, link_linked]
    refine ⟨State.toNat_next_pc hpc, hlink,
      fun es last hes hok hspare => ⟨⟨es, hes, hok⟩, hes.link_eq hspare⟩,
      fun last ret hlast hend hret => ?_, fun ret hend hret => ?_⟩
    · have hback := succeeds_return hret hend
      rw [hlast.link, hlink] at hback
      exact hback
    · have hback := succeeds_return hret hend
      rw [hlink, hm] at hback
      rw [hm]
      exact hback
  · have hthere := succeeds_switch hswitch hpc
    have hback : (m.linked (m.pc + 1) m.state.regs.link).Succeeds switch' _ :=
      succeeds_switch hswitch' hlink
    rw [link_linked, linked_linked] at hback
    exact ⟨_, hthere, rfl, hback⟩

/-- PC is at the last address but one, and R7 holds the address of another routine. -/
def summit : Machine Recorder where
  state :=
    { regs := { general := #v[5, 0, 0, 0, 0, 0, 0, 0x4000], pc := 0xFFFE, condition := .zero }
      mem := .zeroed }
  handler := {}

/-- The other routine after its first instruction, which has added 1 to R0. -/
def visited : Machine Recorder where
  state :=
    { regs := { general := #v[6, 0, 0, 0, 0, 0, 0, 0xFFFF], pc := 0x4001, condition := .positive }
      mem := .zeroed }
  handler := {}

theorem visited_chain : ∃ es, (summit.linked 0xFFFF 0x4000).Chain es visited ∧ Succeeding es ∧
    ∀ e ∈ es, SparesLink e.word := by
  have hd : Instruction.decode 0x1021 = .ok (some (.add 0 0 (.immediate 1))) := rfl
  have hpc : (summit.linked 0xFFFF 0x4000).pc ≠ 0xFFFF := by decide
  have hadd : (summit.linked 0xFFFF 0x4000).Executes 0x1021 _ := .performed hpc hd rfl rfl
  refine ⟨_, .cons hadd (.nil _), List.forall_mem_singleton.2 ⟨_, rfl⟩,
    List.forall_mem_singleton.2 ?_⟩
  decide

/-- JSRR R7 calls the other routine from the last address but one. It adds 1 to R0 and returns to
the last address, or hands over again and is to go on at 0x4002. -/
theorem calls_return_summit :
    (IsCall 0x41C0 ∧ IsReturn 0xC1C0 ∧ IsSwitch 0x41C0) ∧ summit.pc ≠ 0xFFFF ∧
      summit.state.regs.link ≠ 0xFFFF ∧ visited.pc ≠ 0xFFFF ∧
      (∃ step, summit.execute 0x41C0 = .ok step ∧ step.result = .ok .proceed ∧
        step.machine.Stretch visited ∧ step.machine.pc ≠ 0xFFFF ∧
        visited.Succeeds 0xC1C0 (visited.setPc 0xFFFF) ∧
        step.machine.Succeeds 0xC1C0 (summit.linked 0xFFFF 0xFFFF)) ∧
      (∃ other, summit.Succeeds 0x41C0 other ∧ other.pc = 0x4000 ∧
        other.Succeeds 0x41C0 (summit.linked 0x4001 0xFFFF)) ∧
      ∃ m', summit.Turns [0xFFFE, 0x4001] m' ∧ m'.pc.toNat = 0xFFFF ∧
        m'.state.regs.link.toNat = 0x4002 := by
  have hcall : IsCall 0x41C0 := by decide
  have hret : IsReturn 0xC1C0 := by decide
  have hswitch : IsSwitch 0x41C0 := by decide
  have hpc : summit.pc ≠ 0xFFFF := by decide
  have hlink : summit.state.regs.link ≠ 0xFFFF := by decide
  have hvisited : visited.pc ≠ 0xFFFF := by decide
  obtain ⟨hcalls, hswitches, hturns⟩ := calls_return summit
  obtain ⟨es, hes, hok, hspare⟩ := visited_chain
  obtain ⟨step, hs, hr, hm⟩ := succeeds_switch hswitch hpc
  obtain ⟨-, -, hbody, hback, hdirect⟩ := hcalls 0x41C0 step .proceed hcall hs hr
  have hthere : step.machine.pc = 0x4000 := by
    rw [hm]
    rfl
  have hfar : step.machine.pc ≠ 0xFFFF := by
    rw [hthere]
    decide
  have hstart : step.machine.Chain es visited := by
    rw [hm]
    exact hes
  have hstretch := hbody es visited hstart hok hspare
  have hfirst : summit.Turn 0xFFFE step.machine :=
    ⟨summit, 0x41C0, ⟨⟨[], .nil _, List.forall_mem_nil _⟩, rfl⟩, rfl, hswitch, step, hs, hr, rfl⟩
  have hsecond : step.machine.Turn 0x4001 _ :=
    ⟨visited, 0x41C0, hstretch, rfl, hswitch, succeeds_switch hswitch hvisited⟩
  have hboth : summit.Turns ([] ++ [0xFFFE, 0x4001]) _ := .cons hfirst (.cons hsecond (.nil _))
  obtain ⟨hend, hother⟩ := hturns [] 0xFFFE 0x4001 _ hboth
  exact ⟨⟨hcall, hret, hswitch⟩, hpc, hlink, hvisited,
    ⟨step, hs, hr, hstretch, hfar, hback visited 0xC1C0 hstretch hvisited hret,
      hdirect 0xC1C0 hfar hret⟩,
    hswitches 0x41C0 0x41C0 hswitch hswitch hpc hlink, _, hboth, hend, hother⟩

end Machine
end Lc3
