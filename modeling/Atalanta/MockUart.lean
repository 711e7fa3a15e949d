import Atalanta.Apb
import Atalanta.Library.Clocked

/-! The simulated UART `mock_uart.sv`: byte registers, of which the divisor latches share two
addresses with other registers under bit 7 of `lcr`. -/

namespace Atalanta.MockUart

inductive Register
  | thr
  | ier
  | fcr
  | lcr
  | mcr
  | lsr
  | msr
  | scr
deriving DecidableEq, Repr

def register (index : BitVec 3) : Register :=
  if index = 0 then .thr
  else if index = 1 then .ier
  else if index = 2 then .fcr
  else if index = 3 then .lcr
  else if index = 4 then .mcr
  else if index = 5 then .lsr
  else if index = 6 then .msr
  else .scr

def thre : Nat := 5
def temt : Nat := 6

structure State where
  lcr : BitVec 8
  dlm : BitVec 8
  dll : BitVec 8
  mcr : BitVec 8
  lsr : BitVec 8
  ier : BitVec 8
  msr : BitVec 8
  scr : BitVec 8
  fifoEnabled : Bool
deriving DecidableEq, Repr

def State.dlab (state : State) : Bool := state.lcr.getLsbD 7

def selected (bus : ApbIn) : Register := register ((bus.paddr >>> 2).setWidth 3)

def store (state : State) (reg : Register) (pwdata : BitVec 32) : State :=
  let byte := pwdata.extractLsb' 0 8
  match reg with
  | .thr => if state.dlab then { state with dll := byte } else state
  | .ier => if state.dlab then { state with dlm := byte } else { state with ier := byte &&& 0xF }
  | .fcr => { state with fifoEnabled := pwdata.getLsbD 0 }
  | .lcr => { state with lcr := byte }
  | .mcr => { state with mcr := byte &&& 0x1F }
  | .lsr => { state with lsr := byte }
  | .msr => { state with msr := byte }
  | .scr => { state with scr := byte }

def load (state : State) : Register → BitVec 32
  | .thr => if state.dlab then state.dll.setWidth 32 else 0
  | .ier => if state.dlab then state.dlm.setWidth 32 else state.ier.setWidth 32
  | .fcr => if state.fifoEnabled then 0xC0 else 0
  | .lcr => state.lcr.setWidth 32
  | .mcr => state.mcr.setWidth 32
  -- the status byte is signed, and extended before the two bits are set
  | .lsr => state.lsr.signExtend 32 ||| 1 <<< thre ||| 1 <<< temt
  | .msr => state.msr.setWidth 32
  | .scr => state.scr.setWidth 32

def writes (bus : ApbIn) : Bool := bus.psel && bus.penable && bus.pwrite

def reads (bus : ApbIn) : Bool := bus.psel && bus.penable && !bus.pwrite

def next (state : State) (bus : ApbIn) : State :=
  if writes bus then store state (selected bus) bus.pwdata else state

structure Output extends ApbOut where
  tx : Option (BitVec 8)

def out (state : State) (bus : ApbIn) : Output where
  prdata := if reads bus then load state (selected bus) else 0
  pready := true
  pslverr := false
  tx :=
    if writes bus && decide (selected bus = .thr) && !state.dlab then
      some (bus.pwdata.extractLsb' 0 8)
    else none

def circuit : Clocked.Circuit State ApbIn Output where
  reset := ⟨0, 0, 0, 0, 0, 0, 0, 0, false⟩
  next := next
  out := out

end Atalanta.MockUart
