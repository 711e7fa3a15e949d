import Atalanta.Apb
import Atalanta.Obi.Signals
import Atalanta.Library.Clocked
import Atalanta.Library.Handshake
import Mathlib.Tactic.IntervalCases

/-! The OBI to APB bridge `obi_to_apb_intf.sv`. The address phase is fed through; a
small state machine shapes the APB phases and the OBI handshake. -/

namespace Atalanta.ObiToApb

open Handshake

inductive State
  | setup
  | access
  | handshake
deriving DecidableEq, Repr

structure Fsm where
  penable : Bool
  gnt : Bool
  rvalid : Bool
  stateD : State

def apbFsm (state : State) (req pready : Bool) : Fsm :=
  match state with
  | .setup => ⟨false, false, false, if req then .access else state⟩
  | .access => ⟨true, pready, false, if pready then .handshake else state⟩
  -- a request waiting here goes to the access phase at once, without a cycle in `setup`
  | .handshake => ⟨false, false, true, if req then .access else .setup⟩

structure Input where
  obi : ObiReq
  apb : ApbOut

structure Output where
  apb : ApbIn
  pstrb : BitVec 4
  pprot : BitVec 3
  gnt : Bool
  rvalid : Bool
  rdata : BitVec 32
  err : Bool

def next (state : State) (input : Input) : State :=
  (apbFsm state input.obi.req input.apb.pready).stateD

def out (state : State) (input : Input) : Output where
  apb := {
    psel := input.obi.req
    penable := (apbFsm state input.obi.req input.apb.pready).penable
    pwrite := input.obi.we
    paddr := input.obi.addr
    pwdata := input.obi.wdata }
  pstrb := input.obi.be
  pprot := 0b010
  gnt := (apbFsm state input.obi.req input.apb.pready).gnt
  rvalid := (apbFsm state input.obi.req input.apb.pready).rvalid
  rdata := input.apb.prdata
  err := input.apb.pslverr

def circuit : Clocked.Circuit State Input Output where
  reset := .setup
  next := next
  out := out

def obiBeat (input : Nat → Input) (cycle : Nat) : Beat ObiTransfer where
  valid := (input cycle).obi.req
  ready := (circuit.outAt input cycle).gnt
  payload := (input cycle).obi.toObiTransfer

def apbAccess (input : Nat → Input) (cycle : Nat) : Access ObiTransfer where
  select := (circuit.outAt input cycle).apb.psel
  enable := (circuit.outAt input cycle).apb.penable
  ready := (input cycle).apb.pready
  payload := {
    addr := (circuit.outAt input cycle).apb.paddr
    we := (circuit.outAt input cycle).apb.pwrite
    be := (circuit.outAt input cycle).pstrb
    wdata := (circuit.outAt input cycle).apb.pwdata }

theorem gnt_iff (state : State) (req pready : Bool) :
    (apbFsm state req pready).gnt = true ↔ state = .access ∧ pready = true := by
  cases state <;> simp [apbFsm]

theorem penable_iff (state : State) (req pready : Bool) :
    (apbFsm state req pready).penable = true ↔ state = .access := by
  cases state <;> simp [apbFsm]

theorem rvalid_iff (state : State) (req pready : Bool) :
    (apbFsm state req pready).rvalid = true ↔ state = .handshake := by
  cases state <;> simp [apbFsm]

theorem next_access_iff (state : State) (req pready : Bool) :
    (apbFsm state req pready).stateD = .access ↔
      if state = .access then pready = false else req = true := by
  cases state <;> simp [apbFsm]

theorem next_handshake_iff (state : State) (req pready : Bool) :
    (apbFsm state req pready).stateD = .handshake ↔ state = .access ∧ pready = true := by
  cases state <;> cases req <;> simp [apbFsm]

theorem payload_eq (input : Nat → Input) (cycle : Nat) :
    (apbAccess input cycle).payload = (obiBeat input cycle).payload := rfl

theorem select_eq (input : Nat → Input) (cycle : Nat) :
    (apbAccess input cycle).select = (obiBeat input cycle).valid := rfl

theorem enable_iff (input : Nat → Input) (cycle : Nat) :
    (apbAccess input cycle).enable = true ↔ circuit.run input cycle = .access :=
  penable_iff _ _ _

theorem ready_iff (input : Nat → Input) (cycle : Nat) :
    (obiBeat input cycle).ready = true ↔
      circuit.run input cycle = .access ∧ (input cycle).apb.pready = true :=
  gnt_iff _ _ _

/-- The outstanding request: the access phase continues a request that was pending,
ungranted, in the cycle before. -/
theorem access_outstanding (input : Nat → Input) (held : Held (obiBeat input)) (cycle : Nat)
    (inAccess : circuit.run input cycle = .access) :
    (obiBeat input cycle).valid = true ∧ Prepared (apbAccess input) cycle := by
  induction cycle with
  | zero => cases inAccess
  | succ before ih =>
      have entered : if circuit.run input before = .access then (input before).apb.pready = false
          else (obiBeat input before).valid = true := (next_access_iff _ _ _).mp inAccess
      by_cases waiting : circuit.run input before = .access
      · -- a wait cycle: the request of the same access is still pending
        rw [if_pos waiting] at entered
        have notReady : (input before).apb.pready = false := entered
        have pending := (ih waiting).1
        have refused : (obiBeat input before).ready = false := by
          rw [Bool.eq_false_iff]
          intro granted
          simp [((ready_iff input before).mp granted).2] at notReady
        obtain ⟨still, same⟩ := held before pending refused
        exact ⟨still, before, rfl, pending, same.symm,
          Or.inr ⟨(enable_iff input before).mpr waiting, notReady⟩⟩
      · -- the setup cycle, in `setup` or overlapping the response in `handshake`
        rw [if_neg waiting] at entered
        have pending : (obiBeat input before).valid = true := entered
        have refused : (obiBeat input before).ready = false := by
          rw [Bool.eq_false_iff]
          exact fun granted => waiting ((ready_iff input before).mp granted).1
        obtain ⟨still, same⟩ := held before pending refused
        refine ⟨still, before, rfl, pending, same.symm, Or.inl ?_⟩
        rw [Bool.eq_false_iff]
        exact fun enabled => waiting ((enable_iff input before).mp enabled)

theorem fires_eq (input : Nat → Input) (cycle : Nat) :
    (obiBeat input cycle).fires = (apbAccess input cycle).beat.fires := by
  rw [Bool.eq_iff_iff]
  simp only [Beat.fires, Access.beat, Bool.and_eq_true, ready_iff, select_eq, enable_iff]
  exact and_assoc.symm

theorem rvalid_after_grant (input : Nat → Input) (held : Held (obiBeat input)) (cycle : Nat) :
    (circuit.outAt input cycle).rvalid = true ↔
      ∃ before, cycle = before + 1 ∧ (obiBeat input before).fires = true := by
  refine (rvalid_iff _ _ _).trans ?_
  cases cycle with
  | zero => simp [circuit]
  | succ before =>
      refine (next_handshake_iff _ _ _).trans ?_
      constructor
      · rintro ⟨inAccess, ready⟩
        have pending := (access_outstanding input held before inAccess).1
        have granted := (ready_iff input before).mpr ⟨inAccess, ready⟩
        exact ⟨before, rfl, by simp [Beat.fires, pending, granted]⟩
      · rintro ⟨earlier, same, fires⟩
        obtain rfl : before = earlier := by omega
        simp only [Beat.fires, Bool.and_eq_true] at fires
        exact (ready_iff input before).mp fires.2

/-- Every OBI transaction is exactly one legal APB transfer, for any manager that holds
its request until the grant and any pattern of wait states. -/
theorem bridge_transfers (input : Nat → Input) (held : Held (obiBeat input)) :
    (∀ cycle, (apbAccess input cycle).select = true → (apbAccess input cycle).enable = true →
      Prepared (apbAccess input) cycle) ∧
    (∀ cycles, transfers (obiBeat input) cycles =
      transfers (fun cycle => (apbAccess input cycle).beat) cycles) ∧
    (∀ cycle, (circuit.outAt input cycle).rvalid = true ↔
      ∃ before, cycle = before + 1 ∧ (obiBeat input before).fires = true) := by
  refine ⟨?_, ?_, rvalid_after_grant input held⟩
  · intro cycle _ enabled
    exact (access_outstanding input held cycle ((enable_iff input cycle).mp enabled)).2
  · exact transfers_congr (fires_eq input) fun cycle _ => (payload_eq input cycle).symm

def backToBack (cycle : Nat) : Input where
  obi := if cycle < 3 then .read 0x30200 else if cycle < 6 then .read 0x30204 else .idle
  apb := ⟨0, cycle = 2 || cycle = 5, false⟩

theorem backToBack_held : Held (obiBeat backToBack) := by
  intro cycle valid refused
  by_cases early : cycle < 6
  · interval_cases cycle <;> first | decide | exact absurd refused (by decide)
  · have quiet : (obiBeat backToBack cycle).valid = false := by
      simp [obiBeat, backToBack, early, show ¬cycle < 3 by omega, ObiReq.idle]
    exact absurd valid (by simp [quiet])

theorem bridge_transfers_backToBack :
    transfers (fun cycle => (apbAccess backToBack cycle).beat) 7 =
      [(ObiReq.read 0x30200).toObiTransfer, (ObiReq.read 0x30204).toObiTransfer] :=
  ((bridge_transfers backToBack backToBack_held).2.1 7).symm.trans (by decide)

end Atalanta.ObiToApb
