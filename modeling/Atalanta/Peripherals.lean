import Atalanta.ApbCfgRegs
import Atalanta.ApbMtimer.Time
import Atalanta.Bsp.Arithmetic
import Atalanta.Interconnect.Isolation
import Atalanta.MockUart

/-! The peripherals of `rt_peripherals.sv` whose completers are part of the repository: UART,
machine timer and configuration registers behind the one demultiplexer. -/

namespace Atalanta.RtPeripherals

open Bsp BusProgram Clocked

-- `apb_demux_intf`: the request at each port, and the response to the requester
structure ApbDemux where
  request : ApbIn → BitVec 3 → BitVec 3 → ApbIn
  response : (BitVec 3 → ApbOut) → BitVec 3 → ApbOut

structure ApbDemux.Documented (demux : ApbDemux) : Prop where
  selected : ∀ mst select, demux.request mst select select = mst
  unselected : ∀ mst select port, port ≠ select →
    (demux.request mst select port).psel = false ∧ (demux.request mst select port).penable = false
  response : ∀ slv select, demux.response slv select = slv select

def clkDivDef : Nat := 1

structure State where
  uart : MockUart.State
  mtimer : ApbMtimer.State
  cfgRegs : ApbCfgRegs.State

/-- The request, and what the completers answer that are not part of the repository. -/
structure Input where
  apb : ApbIn
  foreign : BitVec 3 → ApbOut

structure Output extends ApbOut where
  mtimerIrq : Bool
  periphDiv : BitVec 4

section Demux

variable (demux : ApbDemux)

def apbOut (apb : ApbIn) (port : BitVec 3) : ApbIn :=
  demux.request apb (decode apb.paddr.toNat) port

def next (state : State) (input : Input) : State where
  uart := MockUart.next state.uart (apbOut demux input.apb 1#3)
  mtimer := ApbMtimer.next state.mtimer (apbOut demux input.apb 2#3)
  cfgRegs := ApbCfgRegs.next state.cfgRegs (apbOut demux input.apb 6#3)

def slaves (state : State) (input : Input) (port : BitVec 3) : ApbOut :=
  if port = 1#3 then (MockUart.out state.uart (apbOut demux input.apb 1#3)).toApbOut
  else if port = 2#3 then (ApbMtimer.out state.mtimer (apbOut demux input.apb 2#3)).toApbOut
  else if port = 6#3 then (ApbCfgRegs.out state.cfgRegs (apbOut demux input.apb 6#3)).toApbOut
  else input.foreign port

def out (state : State) (input : Input) : Output where
  toApbOut := demux.response (slaves demux state input) (decode input.apb.paddr.toNat)
  mtimerIrq := ApbMtimer.timerIrq state.mtimer
  periphDiv := state.cfgRegs.divQ

def circuit : Circuit State Input Output where
  reset := ⟨MockUart.circuit.reset, ApbMtimer.circuit.reset,
    (ApbCfgRegs.circuit clkDivDef).reset⟩
  next := next demux
  out := out demux

end Demux

def periphBus : Bus Input Output (BitVec 32) (BitVec 32) where
  reads addr input := (apbBus Output.toApbOut).reads addr input.apb
  writes addr data input := (apbBus Output.toApbOut).writes addr data input.apb
  data output := output.prdata

section Ports

variable {demux : ApbDemux} (documented : demux.Documented)

include documented

theorem apbOut_selected {apb : ApbIn} {port : BitVec 3}
    (addressed : decode apb.paddr.toNat = port) :
    apbOut demux apb port = apb := by
  rw [apbOut, addressed]
  exact documented.selected apb port

theorem apbOut_unselected {apb : ApbIn} {port : BitVec 3}
    (elsewhere : decode apb.paddr.toNat ≠ port) :
    (apbOut demux apb port).psel = false ∧ (apbOut demux apb port).penable = false :=
  documented.unselected apb _ port elsewhere.symm

theorem mtimer_untouched {apb : ApbIn} (elsewhere : decode apb.paddr.toNat ≠ 2#3) :
    ApbMtimer.writes (apbOut demux apb 2#3) = false := by
  rw [ApbMtimer.writes, (apbOut_unselected documented elsewhere).2]
  rfl

theorem uart_untouched {apb : ApbIn} (elsewhere : decode apb.paddr.toNat ≠ 1#3) :
    MockUart.writes (apbOut demux apb 1#3) = false := by
  rw [MockUart.writes, (apbOut_unselected documented elsewhere).1]
  rfl

theorem prdata_of_port (state : State) {input : Input} {port : BitVec 3}
    (addressed : decode input.apb.paddr.toNat = port) :
    (out demux state input).prdata = (slaves demux state input port).prdata := by
  simp only [out, documented.response, addressed]

theorem pclkDiv_read (state : State) (input : Input)
    (reads : periphBus.reads (cfgBase + periphClkDivOfs) input) :
    (periphBus.data (out demux state input)).setWidth 8 &&& 0xf =
      state.cfgRegs.divQ.setWidth 8 := by
  obtain ⟨_, enabled, reading, addressed⟩ := reads
  have port : decode input.apb.paddr.toNat = 6#3 := by
    rw [addressed]
    decide
  have index : (cfgBase + periphClkDivOfs).extractLsb' 2 3 = ApbCfgRegs.clkDivAddr := by decide
  have shown : periphBus.data (out demux state input) = state.cfgRegs.divQ.setWidth 32 := by
    refine (prdata_of_port documented state port).trans ?_
    simp [slaves, apbOut_selected documented port, ApbCfgRegs.out, ApbCfgRegs.apbAccess, enabled,
      reading, ApbCfgRegs.intAddr, addressed, index]
  rw [shown]
  generalize state.cfgRegs.divQ = div
  revert div
  decide

theorem pclkDiv_performed {others : Input → Prop} {start : State} {input : Nat → Input}
    {first last : Nat} {accesses : List Nat} {value : BitVec 8}
    (performs : Performs (circuit demux) periphBus others start input pclkDiv first accesses last
      value) :
    ∃ cycle, accesses = [cycle] ∧ Passes others input first cycle ∧
      periphBus.reads (cfgBase + periphClkDivOfs) (input cycle) ∧
      Passes others input (cycle + 1) last ∧
      value = ((circuit demux).runFrom start input cycle).cfgRegs.divQ.setWidth 8 := by
  obtain ⟨cycle, _, rfl, before, reads, performs⟩ := performs.of_read
  obtain ⟨rfl, rfl, after⟩ := performs.of_done
  exact ⟨cycle, rfl, before, reads, after, pclkDiv_read documented _ _ reads⟩

end Ports

def writesDivider (demux : ApbDemux) (input : Input) : Prop :=
  ((apbOut demux input.apb 6#3).penable && (apbOut demux input.apb 6#3).pwrite) = true

theorem divider_kept {demux : ApbDemux} {input : Input} (quiet : ¬writesDivider demux input)
    (state : State) : (next demux state input).cfgRegs = state.cfgRegs := by
  change ApbCfgRegs.next state.cfgRegs (apbOut demux input.apb 6#3) = state.cfgRegs
  unfold ApbCfgRegs.next ApbCfgRegs.apbAccess
  cases enabled : (apbOut demux input.apb 6#3).penable with
  | false => rfl
  | true =>
      have reading : (apbOut demux input.apb 6#3).pwrite = false := by
        simpa [writesDivider, enabled] using quiet
      simp only [reading, if_true, Bool.false_eq_true, if_false]
      split <;> rfl

def mtimerRequest (demux : ApbDemux) (input : Input) : ApbIn := apbOut demux input.apb 2#3

def mtimerPort (demux : ApbDemux) (input : Nat → Input) (cycle : Nat) : ApbIn :=
  mtimerRequest demux (input cycle)

theorem mtimer_runFrom (demux : ApbDemux) (start : State) (input : Nat → Input) (cycle : Nat) :
    ((circuit demux).runFrom start input cycle).mtimer =
      ApbMtimer.circuit.runFrom start.mtimer (mtimerPort demux input) cycle := by
  induction cycle with
  | zero => rfl
  | succ cycle ih =>
      rw [ApbMtimer.circuit.runFrom_succ, ← ih]
      rfl

def gatingDemux : ApbDemux where
  request mst select port :=
    if port = select then mst else { mst with psel := false, penable := false }
  response slv select := slv select

theorem gatingDemux_documented : gatingDemux.Documented where
  selected _ _ := if_pos rfl
  unselected mst select port other := by simp [gatingDemux, other]
  response _ _ := rfl

def accessing (apb : ApbIn) : Input := ⟨apb, fun _ => ⟨0, true, false⟩⟩

end Atalanta.RtPeripherals
