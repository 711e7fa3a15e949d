import Atalanta.Bsp.Arithmetic

/-! The general purpose timers `timer_group.rs`. -/

namespace Atalanta.Bsp

def apbTimerBase : BitVec 32 := 0x30300

-- the fields of a register block
def timerCntOfs : BitVec 32 := 0x0
def timerCmpOfs : BitVec 32 := 0x8

namespace Timer

variable (timer : BitVec 32)

def setCounter (debugAssertions : Bool) (cnt : BitVec 32) : Driver (Except Panic Unit) := do
  if debugAssertions then
    let cmp ← readU32 (timer + timerCmpOfs)
    if cnt ≤ cmp then
      writeU32 (timer + timerCntOfs) cnt
      return .ok ()
    else return .error .assertion
  else
    writeU32 (timer + timerCntOfs) cnt
    return .ok ()

def setCmp (cmp : BitVec 32) : Driver Unit := writeU32 (timer + timerCmpOfs) cmp

end Timer

namespace Periodic

variable (timer : BitVec 32)

def setPeriod (duration : BitVec 32) : Driver (Except Panic Unit) := do
  let pclkDiv ← pclkDiv
  orPanic (checkedDiv duration (pclkDiv.setWidth 32)) fun cmp => do
    Timer.setCmp timer cmp
    return .ok ()

def setPeriodOffset (debugAssertions : Bool) (period offset : BitVec 32) :
    Driver (Except Panic Unit) := do
  let pclkDiv ← pclkDiv
  orPanic (checkedDiv period (pclkDiv.setWidth 32)) fun cmp => do
    Timer.setCmp timer cmp
    orPanic (checkedDiv offset (pclkDiv.setWidth 32)) fun cnt =>
      Timer.setCounter timer debugAssertions cnt

end Periodic

end Atalanta.Bsp
