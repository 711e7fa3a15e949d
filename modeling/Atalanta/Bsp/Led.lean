import Atalanta.Bsp.Gpio

/-! The LEDs of `led.rs` on the pads of `GpioLo`, and the blink codes of `tb.rs` and the examples,
which run for ever. -/

namespace Atalanta.Bsp

open BusProgram

inductive Led
  | ld0
  | ld1
  | ld2
  | ld3
deriving DecidableEq, Repr

def Led.bits : Led → BitVec 32
  | .ld0 => 0b1
  | .ld1 => 0b1#32 <<< 8
  | .ld2 => 0b1#32 <<< 16
  | .ld3 => 0b1#32 <<< 24

def ledOn (led : Led) : Driver Unit := do
  GpioHal.en gpioLoBase led.bits
  GpioHal.setOutput gpioLoBase led.bits
  GpioHal.setHigh gpioLoBase led.bits

def ledOff (led : Led) : Driver Unit := do
  GpioHal.en gpioLoBase led.bits
  GpioHal.setOutput gpioLoBase led.bits
  GpioHal.setLow gpioLoBase led.bits

def ledToggle (led : Led) : Driver Unit := do
  GpioHal.en gpioLoBase led.bits
  GpioHal.setOutput gpioLoBase led.bits
  GpioHal.toggle gpioLoBase led.bits

def ledSet (led : Led) (lit : Bool) : Driver Unit := if lit then ledOn led else ledOff led

inductive LedCall
  | on (led : Led)
  | off (led : Led)
  | toggle (led : Led)
  | set (led : Led) (lit : Bool)
deriving DecidableEq, Repr

namespace LedCall

def driver : LedCall → Driver Unit
  | .on led => ledOn led
  | .off led => ledOff led
  | .toggle led => ledToggle led
  | .set led lit => ledSet led lit

def led : LedCall → Led
  | .on led | .off led | .toggle led | .set led _ => led

/-- The level of its LED after the call. -/
def level (before : Bool) : LedCall → Bool
  | .on _ => true
  | .off _ => false
  | .toggle _ => !before
  | .set _ lit => lit

def step (registers : GpioRegisters) (call : LedCall) : GpioRegisters :=
  (call.driver.exec gpioDevice registers).2

end LedCall

/-! The pads -/

def Led.pin : Led → Nat
  | .ld0 => 0
  | .ld1 => 8
  | .ld2 => 16
  | .ld3 => 24

-- a word of the first block
def padWord (registers : GpioRegisters) (register : Fin 14) : BitVec 32 :=
  registers (padAddr gpioBase register)

/-- What a pin drives, if its clock is enabled and it is an output. -/
def pinLevel (registers : GpioRegisters) (pin : Nat) : Option Bool :=
  if (padWord registers padEn).getLsbD pin && (padWord registers padDir).getLsbD pin then
    some ((padWord registers padDataOut).getLsbD pin)
  else none

/-- What a call does to one of the words. -/
def GpioCall.onWord (register : Fin 14) (word : BitVec 32) (call : GpioCall) : BitVec 32 :=
  if call.op.register = register then call.op.update call.mask word else word

def LedCall.op : LedCall → GpioOp
  | .on _ => .setHigh
  | .off _ => .setLow
  | .toggle _ => .toggle
  | .set _ lit => if lit then .setHigh else .setLow

/-- What an operation makes of one bit. -/
def GpioOp.level (op : GpioOp) (mask before : Bool) : Bool :=
  match op with
  | .en | .setOutput | .setHigh => before || mask
  | .setInput | .setLow => before && !mask
  | .toggle => before ^^ mask

end Atalanta.Bsp
