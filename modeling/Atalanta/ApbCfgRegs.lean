import Atalanta.Apb
import Atalanta.Library.Clocked

/-! The configuration registers `apb_cfg_regs.sv`: the divider of the peripheral clock. -/

namespace Atalanta.ApbCfgRegs

def clkDivAddr : BitVec 3 := 0b000#3

def intAddr (bus : ApbIn) : BitVec 3 := bus.paddr.extractLsb' 2 3

structure State where
  divQ : BitVec 4
deriving DecidableEq, Repr

structure Access where
  divD : BitVec 4
  prdata : BitVec 32

def apbAccess (state : State) (bus : ApbIn) : Access :=
  let idle : Access := ⟨state.divQ, 0⟩
  if bus.penable then
    if bus.pwrite then
      if intAddr bus = clkDivAddr then { idle with divD := bus.pwdata.extractLsb' 0 4 } else idle
    else
      if intAddr bus = clkDivAddr then { idle with prdata := state.divQ.setWidth 32 } else idle
  else idle

def next (state : State) (bus : ApbIn) : State where
  divQ := (apbAccess state bus).divD

structure Output extends ApbOut where
  div : BitVec 4

def out (state : State) (bus : ApbIn) : Output where
  prdata := (apbAccess state bus).prdata
  pready := bus.penable
  pslverr := false
  div := state.divQ

def circuit (divDefault : Nat) : Clocked.Circuit State ApbIn Output where
  reset := ⟨BitVec.ofNat 4 divDefault⟩
  next := next
  out := out

end Atalanta.ApbCfgRegs
