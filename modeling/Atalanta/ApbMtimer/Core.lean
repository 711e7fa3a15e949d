import Atalanta.Apb
import Atalanta.Library.Clocked

/-! The machine timer `apb_mtimer.sv`: a 64-bit counter behind a 3-bit prescaler,
a compare register and a control register, all accessed over APB. -/

namespace Atalanta.ApbMtimer

def mTimeAddrLow : BitVec 3 := 0b000#3
def mTimeAddrHigh : BitVec 3 := 0b001#3
def mTimeCmpAddrLow : BitVec 3 := 0b010#3
def mTimeCmpAddrHigh : BitVec 3 := 0b011#3
def ctrlAddr : BitVec 3 := 0b100#3

inductive Register
  | mTimeLow
  | mTimeHigh
  | mTimeCmpLow
  | mTimeCmpHigh
  | ctrl
  | unimplemented
deriving DecidableEq, Repr

def register (intAddr : BitVec 3) : Register :=
  if intAddr = mTimeAddrLow then .mTimeLow
  else if intAddr = mTimeAddrHigh then .mTimeHigh
  else if intAddr = mTimeCmpAddrLow then .mTimeCmpLow
  else if intAddr = mTimeCmpAddrHigh then .mTimeCmpHigh
  else if intAddr = ctrlAddr then .ctrl
  else .unimplemented

def intAddr (bus : ApbIn) : BitVec 3 := bus.paddr.extractLsb' 2 3

structure State where
  mtimeQ : BitVec 64
  mtimecmpQ : BitVec 64
  prescalerQ : BitVec 3
  counterQ : BitVec 3
  enableQ : Bool
deriving DecidableEq, Repr

structure Access where
  mtimeHi : BitVec 32
  mtimeLo : BitVec 32
  mtimecmpHi : BitVec 32
  mtimecmpLo : BitVec 32
  prdata : BitVec 32
  prescalerD : BitVec 3
  enableD : Bool

def idleAccess (state : State) : Access where
  mtimeHi := state.mtimeQ.extractLsb' 32 32
  mtimeLo := state.mtimeQ.extractLsb' 0 32
  mtimecmpHi := state.mtimecmpQ.extractLsb' 32 32
  mtimecmpLo := state.mtimecmpQ.extractLsb' 0 32
  prdata := 0
  prescalerD := state.prescalerQ
  enableD := state.enableQ

def ctrlWord (state : State) : BitVec 32 :=
  (state.prescalerQ.setWidth 32 <<< 8) ||| (BitVec.ofBool state.enableQ).setWidth 32

def apbAccess (state : State) (bus : ApbIn) : Access :=
  let idle := idleAccess state
  if bus.penable then
    if bus.pwrite then
      match register (intAddr bus) with
      | .mTimeLow => { idle with mtimeLo := bus.pwdata }
      | .mTimeHigh => { idle with mtimeHi := bus.pwdata }
      | .mTimeCmpLow => { idle with mtimecmpLo := bus.pwdata }
      | .mTimeCmpHigh => { idle with mtimecmpHi := bus.pwdata }
      | .ctrl =>
        { idle with
          enableD := bus.pwdata.getLsbD 0
          prescalerD := bus.pwdata.extractLsb' 8 3 }
      | .unimplemented => idle
    else
      match register (intAddr bus) with
      | .mTimeLow => { idle with prdata := state.mtimeQ.extractLsb' 0 32 }
      | .mTimeHigh => { idle with prdata := state.mtimeQ.extractLsb' 32 32 }
      | .mTimeCmpLow => { idle with prdata := state.mtimecmpQ.extractLsb' 0 32 }
      | .mTimeCmpHigh => { idle with prdata := state.mtimecmpQ.extractLsb' 32 32 }
      | .ctrl => { idle with prdata := ctrlWord state }
      | .unimplemented => idle
  else idle

-- every write access takes the first branch, whichever register it addresses
def tick (state : State) (bus : ApbIn) : BitVec 64 × BitVec 3 :=
  let access := apbAccess state bus
  if bus.penable && bus.pwrite then (access.mtimeHi ++ access.mtimeLo, 0)
  else if state.enableQ then
    if state.counterQ = state.prescalerQ then (state.mtimeQ + 1, 0)
    else (state.mtimeQ, state.counterQ + 1)
  else (state.mtimeQ, 0)

def next (state : State) (bus : ApbIn) : State where
  mtimeQ := (tick state bus).1
  mtimecmpQ := (apbAccess state bus).mtimecmpHi ++ (apbAccess state bus).mtimecmpLo
  prescalerQ := (apbAccess state bus).prescalerD
  counterQ := (tick state bus).2
  enableQ := (apbAccess state bus).enableD

def timerIrq (state : State) : Bool :=
  decide (state.mtimecmpQ ≤ state.mtimeQ) && state.enableQ

structure Output extends ApbOut where
  timerIrq : Bool

def out (state : State) (bus : ApbIn) : Output where
  prdata := (apbAccess state bus).prdata
  pready := bus.penable
  pslverr := false
  timerIrq := timerIrq state

def circuit : Clocked.Circuit State ApbIn Output where
  reset := ⟨0, 0, 0, 0, false⟩
  next := next
  out := out

-- `psel_i` takes no part
def writes (bus : ApbIn) : Bool := bus.penable && bus.pwrite

def reads (bus : ApbIn) : Bool := bus.penable && !bus.pwrite

def word (state : State) : Register → BitVec 32
  | .mTimeLow => state.mtimeQ.extractLsb' 0 32
  | .mTimeHigh => state.mtimeQ.extractLsb' 32 32
  | .mTimeCmpLow => state.mtimecmpQ.extractLsb' 0 32
  | .mTimeCmpHigh => state.mtimecmpQ.extractLsb' 32 32
  | .ctrl => ctrlWord state
  | .unimplemented => 0

end Atalanta.ApbMtimer
