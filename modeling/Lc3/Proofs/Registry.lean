import Lc3.Proofs.Editing
import Mathlib.Data.List.Forall2
import Mathlib.Data.Option.Basic
import Mathlib.Logic.Function.Basic

/-! # A trap table is a map from vectors to services

Who uses a table registers services, takes them out again, puts them back at other vectors, and
calls them in between. A service keeps its private state all the time: it is the service that was
registered first, after all the calls that it got wherever it was.

* `Service.callAll`, `Entry`: a service with the calls that it got.
* `TrapTable.Op`, `TrapTable.Tended`: series of operations, and the services that are out of the
  table.
* `Ledger.ofOps`: where each service is and what calls it got, found from the operations alone.
* `Tended.keeps_ledger`: the table and the services out of it are those of the ledger.
* `Tended.isRegistered_eq`: the last registration or removal at a vector decides whether it is served.
* `table_keeps_services`: the account of all operations.
-/

namespace Lc3
set_option autoImplicit false

variable {ρ : Type}

/-! ## Services with their calls -/

/-- What a service becomes by calls in these states, whatever the replies. -/
def Service.callAll [ServiceRoutine ρ] : List State → Service ρ → Except Misuse (Service ρ)
  | [], service => .ok service
  | s :: calls, service => do
    let called ← service.call s
    callAll calls called.server

theorem Service.callAll_concat [ServiceRoutine ρ] {calls : List State} {s : State}
    {service service' : Service ρ} {called : Served (Service ρ)}
    (h : service.callAll calls = .ok service') (hs : service'.call s = .ok called) :
    service.callAll (calls ++ [s]) = .ok called.server := by
  induction calls generalizing service with
  | nil =>
    cases h
    exact bind_eq_ok.2 ⟨called, hs, rfl⟩
  | cons call calls ih =>
    obtain ⟨first, hfirst, hrest⟩ := bind_eq_ok.1 h
    exact bind_eq_ok.2 ⟨first, hfirst, ih hrest⟩

/-- A service as it was when it was registered first, and the states that it was called in since. -/
structure Entry (ρ : Type) where
  origin : Service ρ
  calls : List State := []

/-- This is what has become of the entry. -/
def Entry.Is [ServiceRoutine ρ] (e : Entry ρ) (service : Service ρ) : Prop :=
  e.origin.callAll e.calls = .ok service

/-! ## Operations -/

inductive TrapTable.Op (ρ : Type) where
  | register (v : Byte) (service : Service ρ)
  | unregister (v : Byte)
  /-- registers the service again that is at place `i` among those that are out of the table -/
  | restore (i : Nat) (v : Byte)
  | invoke (v : Byte) (s : State)

/-- `start.Tended ops table out`: the operations `ops` make `table` of `start`, and leave the
services `out` with the one who took them out, the latest first. -/
inductive TrapTable.Tended [ServiceRoutine ρ] (start : TrapTable ρ) :
    List (Op ρ) → TrapTable ρ → List (Service ρ) → Prop
  | start : Tended start [] start []
  | register {ops : List (Op ρ)} {table : TrapTable ρ} {out : List (Service ρ)}
      (h : Tended start ops table out) (v : Byte) (service : Service ρ) :
      Tended start (ops ++ [.register v service]) (table.register v service) out
  | unregister {ops : List (Op ρ)} {table : TrapTable ρ} {out : List (Service ρ)}
      (h : Tended start ops table out) (v : Byte) :
      Tended start (ops ++ [.unregister v]) (table.unregister v).2
        ((table.unregister v).1.toList ++ out)
  | restore {ops : List (Op ρ)} {table : TrapTable ρ} {out : List (Service ρ)} {i : Nat}
      {service : Service ρ} (h : Tended start ops table out) (hi : out[i]? = some service)
      (v : Byte) :
      Tended start (ops ++ [.restore i v]) (table.register v service) (out.eraseIdx i)
  | invoke {ops : List (Op ρ)} {table : TrapTable ρ} {out : List (Service ρ)} {v : Byte}
      {s : State} {served : Served (TrapTable ρ)} (h : Tended start ops table out)
      (hs : TrapHandler.invoke v table s = .ok served) :
      Tended start (ops ++ [.invoke v s]) served.server out

/-! ## Ledgers -/

/-- Which entry each vector has, and which entries are out of the table. -/
structure Ledger (ρ : Type) where
  placed : Byte → Option (Entry ρ)
  out : List (Entry ρ) := []

namespace Ledger

def ofTable (table : TrapTable ρ) : Ledger ρ where
  placed v := (table.get? v).map fun service => { origin := service }

def place (l : Ledger ρ) (v : Byte) (e : Option (Entry ρ)) : Ledger ρ :=
  { l with placed := Function.update l.placed v e }

def after (l : Ledger ρ) : TrapTable.Op ρ → Ledger ρ
  | .register v service => l.place v (some { origin := service })
  | .unregister v => { l.place v none with out := (l.placed v).toList ++ l.out }
  | .restore i v =>
    match l.out[i]? with
    | some e => { l.place v (some e) with out := l.out.eraseIdx i }
    | none => l
  | .invoke v s =>
    l.place v ((l.placed v).map fun e => { e with calls := e.calls ++ [s] })

def ofOps (start : TrapTable ρ) (ops : List (TrapTable.Op ρ)) : Ledger ρ :=
  ops.foldl after (ofTable start)

theorem ofOps_concat (start : TrapTable ρ) (ops : List (TrapTable.Op ρ)) (op : TrapTable.Op ρ) :
    ofOps start (ops ++ [op]) = (ofOps start ops).after op := by
  rw [ofOps, List.foldl_append]
  rfl

theorem placed_place (l : Ledger ρ) (v v' : Byte) (e : Option (Entry ρ)) :
    (l.place v e).placed v' = if v' = v then e else l.placed v' :=
  Function.update_apply _ _ _ _

variable [ServiceRoutine ρ]

structure Describes (l : Ledger ρ) (table : TrapTable ρ) (out : List (Service ρ)) : Prop where
  placed : ∀ v, Option.Rel Entry.Is (l.placed v) (table.get? v)
  out : List.Forall₂ Entry.Is l.out out

variable {l : Ledger ρ} {table table' : TrapTable ρ} {out : List (Service ρ)}

theorem describes_ofTable (table : TrapTable ρ) : (ofTable table).Describes table [] where
  placed v := by
    simp only [ofTable]
    cases table.get? v with
    | none => exact .none
    | some service => exact .some rfl
  out := .nil

/-- A change at one vector has no influence on the entries of the others. -/
theorem Describes.place (h : l.Describes table out) {v : Byte} {e : Option (Entry ρ)}
    {service? : Option (Service ρ)} (he : Option.Rel Entry.Is e service?)
    (hget : ∀ v', table'.get? v' = if v' = v then service? else table.get? v') :
    (l.place v e).Describes table' out where
  placed v' := by
    rw [placed_place, hget]
    by_cases hv : v' = v
    · rw [if_pos hv, if_pos hv]
      exact he
    · rw [if_neg hv, if_neg hv]
      exact h.placed v'
  out := h.out

end Ledger

/-! ## The table follows the ledger -/

theorem forall₂_eraseIdx {α β : Type} {R : α → β → Prop} {as : List α} {bs : List β}
    (h : List.Forall₂ R as bs) {i : Nat} {b : β} (hi : bs[i]? = some b) :
    ∃ a, as[i]? = some a ∧ R a b ∧ List.Forall₂ R (as.eraseIdx i) (bs.eraseIdx i) := by
  induction h generalizing i with
  | nil => cases hi
  | @cons a b' as bs hab hrest ih =>
    cases i with
    | zero =>
      cases hi
      exact ⟨a, rfl, hab, hrest⟩
    | succ i =>
      obtain ⟨a', ha', hR, herase⟩ := ih hi
      exact ⟨a', ha', hR, .cons hab herase⟩

namespace TrapTable
variable [ServiceRoutine ρ] {start table : TrapTable ρ} {ops : List (Op ρ)}
  {out : List (Service ρ)} {v : Byte} {s : State} {served : Served (TrapTable ρ)}

theorem invoke_cases (hs : TrapHandler.invoke v table s = .ok served) :
    (table.get? v = none ∧
        served = { reply := .error .unregistered, server := table, state := s }) ∨
      ∃ service called, table.get? v = some service ∧ service.call s = .ok called ∧
        served = { reply := called.reply, server := table.set v (some called.server),
                   state := called.state } := by
  cases hget : table.get? v with
  | none =>
    rw [invoke_unregistered hget] at hs
    cases hs
    exact .inl ⟨rfl, rfl⟩
  | some service =>
    rw [invoke_registered hget] at hs
    cases hcall : service.call s with
    | error cause =>
      rw [hcall] at hs
      cases hs
    | ok called =>
      rw [hcall] at hs
      cases hs
      exact .inr ⟨service, called, rfl, hcall, rfl⟩

theorem Tended.keeps_ledger (h : start.Tended ops table out) :
    (Ledger.ofOps start ops).Describes table out := by
  induction h with
  | start => exact Ledger.describes_ofTable start
  | register h v service ih =>
    rw [Ledger.ofOps_concat]
    exact ih.place (.some rfl) fun v' => get?_set _ _ _ _
  | @unregister ops table out h v ih =>
    rw [Ledger.ofOps_concat]
    have hplaced : ((Ledger.ofOps start ops).place v none).Describes (table.set v none) out :=
      ih.place .none fun v' => get?_set _ _ _ _
    refine ⟨hplaced.placed, ?_⟩
    have hv := ih.placed v
    simp only [Ledger.after, TrapTable.unregister]
    generalize (Ledger.ofOps start ops).placed v = e? at hv ⊢
    generalize table.get? v = service? at hv ⊢
    cases hv with
    | none => exact ih.out
    | some he => exact .cons he ih.out
  | @restore ops table out i service h hi v ih =>
    rw [Ledger.ofOps_concat]
    obtain ⟨e, he, his, hout⟩ := forall₂_eraseIdx ih.out hi
    have hplaced : ((Ledger.ofOps start ops).place v (some e)).Describes (table.register v service)
        out := ih.place (.some his) fun v' => get?_set _ _ _ _
    simp only [Ledger.after, he]
    exact ⟨hplaced.placed, hout⟩
  | @invoke ops table out v s served h hs ih =>
    rw [Ledger.ofOps_concat]
    have hv := ih.placed v
    obtain ⟨hget, rfl⟩ | ⟨service, called, hget, hcall, rfl⟩ := invoke_cases hs
    · rw [hget] at hv
      simp only [Ledger.after]
      generalize (Ledger.ofOps start ops).placed v = e? at hv ⊢
      cases hv
      refine ih.place .none fun v' => ?_
      by_cases hv' : v' = v
      · rw [if_pos hv', hv', hget]
      · rw [if_neg hv']
    · rw [hget] at hv
      simp only [Ledger.after]
      generalize (Ledger.ofOps start ops).placed v = e? at hv ⊢
      cases hv with
      | some he => exact ih.place (.some (Service.callAll_concat he hcall)) fun v' => get?_set _ _ _ _

/-! ## Which vectors are served -/

/-- Whether the operation registers a service at `v`, or removes the one there. -/
def Op.change? (v : Byte) : Op ρ → Option Bool
  | register v' _ | restore _ v' => if v = v' then some true else none
  | unregister v' => if v = v' then some false else none
  | invoke .. => none

/-- Whether the last of the operations that changed `v` was a registration. -/
def lastChange (v : Byte) (ops : List (Op ρ)) : Option Bool :=
  (ops.filterMap (Op.change? v)).getLast?

omit [ServiceRoutine ρ] in
theorem lastChange_concat (v : Byte) (ops : List (Op ρ)) (op : Op ρ) :
    lastChange v (ops ++ [op]) = (op.change? v).or (lastChange v ops) := by
  unfold lastChange
  rw [List.filterMap_append, List.getLast?_append]
  cases h : op.change? v with
  | none => rw [List.filterMap_cons_none h]; rfl
  | some b => rw [List.filterMap_cons_some h]; rfl

omit [ServiceRoutine ρ] in
theorem isRegistered_set (table : TrapTable ρ) (v v' : Byte) (service? : Option (Service ρ)) :
    (table.set v service?).isRegistered v' =
      if v' = v then service?.isSome else table.isRegistered v' := by
  rw [isRegistered, get?_set]
  by_cases h : v' = v
  · rw [if_pos h, if_pos h]
  · rw [if_neg h, if_neg h]
    rfl

theorem isRegistered_invoke (hs : TrapHandler.invoke v table s = .ok served) (v' : Byte) :
    served.server.isRegistered v' = table.isRegistered v' := by
  obtain ⟨-, rfl⟩ | ⟨service, called, hget, -, rfl⟩ := invoke_cases hs
  · rfl
  · rw [isRegistered_set]
    by_cases h : v' = v
    · rw [if_pos h, h, isRegistered, hget]
      rfl
    · rw [if_neg h]

theorem Tended.isRegistered_eq (h : start.Tended ops table out) (v : Byte) :
    table.isRegistered v = (lastChange v ops).getD (start.isRegistered v) := by
  induction h with
  | start => rfl
  | register h v' service ih | restore h hi v' ih =>
    rw [lastChange_concat, TrapTable.register, isRegistered_set, ih, Op.change?]
    split <;> rfl
  | unregister h v' ih =>
    rw [lastChange_concat, TrapTable.unregister, isRegistered_set, ih, Op.change?]
    split <;> rfl
  | invoke h hs ih =>
    rw [lastChange_concat, isRegistered_invoke hs, ih]
    rfl

omit [ServiceRoutine ρ] in
theorem vectors_ascending (table : TrapTable ρ) : table.vectors.Pairwise (· < ·) := by
  refine List.Pairwise.filter _ (List.pairwise_map.2 ?_)
  refine List.pairwise_lt_range.imp_of_mem fun {a b} ha hb hab => ?_
  rw [List.mem_range] at ha hb
  rw [BitVec.lt_def, BitVec.toNat_ofNat, BitVec.toNat_ofNat, Nat.mod_eq_of_lt ha,
    Nat.mod_eq_of_lt hb]
  exact hab

omit [ServiceRoutine ρ] in
theorem isRegistered_withHalt (v : Byte) :
    (withHalt : TrapTable ρ).isRegistered v = true ↔ v = 0x25 := by
  have hhalt : StandardTrap.halt.vector = 0x25 := rfl
  rw [withHalt, register, isRegistered_set, hhalt]
  by_cases h : v = 0x25
  · rw [if_pos h]
    exact iff_of_true rfl h
  · rw [if_neg h, isRegistered, get?_empty]
    exact iff_of_false Bool.false_ne_true h

/-- After any series of operations each vector has the service that was registered there last, or
put back there, with the private state that its own calls have left, and so has each service that
is out of the table; calls of other services have no part in it. A service is handed back as it is,
and called once, with its reply and all its effects, whatever the reply. The last registration or
removal at a vector decides whether it is served. -/
theorem table_keeps_services (start : TrapTable ρ) (ops : List (Op ρ)) (table : TrapTable ρ)
    (out : List (Service ρ)) (h : start.Tended ops table out) :
    (∀ v, Option.Rel Entry.Is ((Ledger.ofOps start ops).placed v) (table.get? v)) ∧
      List.Forall₂ Entry.Is (Ledger.ofOps start ops).out out ∧
      (∀ v, table.isRegistered v = true ↔
        lastChange v ops = some true ∨ lastChange v ops = none ∧ start.isRegistered v = true) ∧
      (∀ v, (empty : TrapTable ρ).isRegistered v = false) ∧
      (∀ v, (withHalt : TrapTable ρ).isRegistered v = true ↔ v = 0x25) ∧
      table.vectors.Pairwise (· < ·) ∧ (∀ v, v ∈ table.vectors ↔ table.isRegistered v = true) ∧
      (∀ v service v', (table.register v service).get? v' =
        if v' = v then some service else table.get? v') ∧
      (∀ v, (table.unregister v).1 = table.get? v ∧
        ∀ v', (table.unregister v).2.get? v' = if v' = v then none else table.get? v') ∧
      (∀ v s, table.get? v = none → TrapHandler.invoke v table s =
        .ok { reply := .error .unregistered, server := table, state := s }) ∧
      (∀ v s service called, table.get? v = some service → service.call s = .ok called →
        ∃ served, TrapHandler.invoke v table s = .ok served ∧ served.reply = called.reply ∧
          served.state = called.state ∧
          ∀ v', served.server.get? v' = if v' = v then some called.server else table.get? v') ∧
      ∀ v s service cause, table.get? v = some service → service.call s = .error cause →
        TrapHandler.invoke v table s = .error cause := by
  have hledger := h.keeps_ledger
  refine ⟨hledger.placed, hledger.out, fun v => ?_, fun v => ?_, isRegistered_withHalt,
    table.vectors_ascending, fun v => mem_vectors, fun v service v' => get?_set _ _ _ _,
    fun v => ⟨rfl, fun v' => get?_set _ _ _ _⟩, fun v s hget => invoke_unregistered hget,
    fun v s service called hget hcall => ?_, fun v s service cause hget hcall => ?_⟩
  · rw [h.isRegistered_eq v]
    cases lastChange v ops <;> simp
  · rw [isRegistered, get?_empty]
    rfl
  · rw [invoke_registered hget, hcall]
    exact ⟨_, rfl, rfl, rfl, fun v' => get?_set _ _ _ _⟩
  · rw [invoke_registered hget, hcall]
    rfl

/-- A routine that does nothing but count its calls, and always fails. -/
def tally : ScriptedRoutine where
  actions := []
  reply := .error .failed

/-- The tally is called at 0, moved to 255 and called again; a second one is registered at 0. -/
def tallying : List (Op ScriptedRoutine) :=
  [.register 0 (.routine tally), .invoke 0 .initial, .unregister 0, .restore 0 255,
    .invoke 255 .initial, .register 0 (.routine tally)]

theorem exists_tended_tallying :
    ∃ table, (withHalt : TrapTable ScriptedRoutine).Tended tallying table [] := by
  have hnew : (withHalt : TrapTable ScriptedRoutine).Tended [] withHalt [] := .start
  have hregistered := hnew.register 0 (.routine tally)
  have hcalled := hregistered.invoke (v := 0) (s := .initial) rfl
  have hout := hcalled.unregister 0
  have hback := hout.restore (i := 0) rfl 255
  have hagain := hback.invoke (v := 255) (s := .initial) rfl
  exact ⟨_, hagain.register 0 (.routine tally)⟩

/-- The moved tally has counted both of its calls, the new one none. -/
theorem table_keeps_services_tallying :
    ∃ table, (withHalt : TrapTable ScriptedRoutine).Tended tallying table [] ∧
      table.get? 255 = some (.routine { tally with calls := 2 }) ∧
      table.get? 0 = some (.routine tally) ∧
      ∀ v, v ∈ table.vectors ↔ v = 0 ∨ v = 0x25 ∨ v = 255 := by
  obtain ⟨table, htended⟩ := exists_tended_tallying
  obtain ⟨hplaced, -, hregistered, -, hhalt, -, hmem, -⟩ :=
    table_keeps_services withHalt tallying table [] htended
  have hmoved : Option.Rel Entry.Is
      (some { origin := .routine tally, calls := [.initial, .initial] }) (table.get? 255) :=
    hplaced 255
  have hnew : Option.Rel Entry.Is (some { origin := .routine tally }) (table.get? 0) := hplaced 0
  refine ⟨table, htended, ?_, ?_, fun v => ?_⟩
  · generalize table.get? 255 = service? at hmoved
    cases hmoved with
    | some his =>
      cases his
      rfl
  · generalize table.get? 0 = service? at hnew
    cases hnew with
    | some his =>
      cases his
      rfl
  · rw [hmem, hregistered, hhalt]
    by_cases h0 : v = 0
    · have hlast : lastChange 0 tallying = some true := rfl
      rw [h0, hlast]
      decide
    by_cases h255 : v = 255
    · have hlast : lastChange 255 tallying = some true := rfl
      rw [h255, hlast]
      decide
    have hlast : lastChange v tallying = none := by
      simp only [lastChange, tallying, List.filterMap, Op.change?, if_neg h0, if_neg h255]
      rfl
    simp only [hlast, h0, h255, reduceCtorEq, false_or, or_false, true_and]

end TrapTable
end Lc3
