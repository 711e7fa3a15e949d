import Atalanta.Bsp.Led

/-! The blink codes of `tb.rs` and of the examples: endless loops of LED calls and delays, and what
the LEDs show during each of the delays. -/

namespace Atalanta.Bsp

def Led.index : Led → Nat
  | .ld0 => 0
  | .ld1 => 1
  | .ld2 => 2
  | .ld3 => 3

/-- The calls before the loop, and those before each delay of it. -/
structure Blink where
  before : List LedCall
  round : Nat → List LedCall

namespace Blink

/-- Every call up to the given delay. -/
def callsUntil (blink : Blink) (delay : Nat) : List LedCall :=
  blink.before ++ (List.range (delay + 1)).flatMap blink.round

def shown (blink : Blink) (registers : GpioRegisters) (delay : Nat) (led : Led) : Option Bool :=
  pinLevel ((blink.callsUntil delay).foldl LedCall.step registers) led.pin

/-! Loops over `windows(2)` of an order, for ever by `cycle` -/

section Rotation

variable {first : Led} {rest : List Led}

end Rotation

/-! Two delays by turns -/

section Codes

variable (registers : GpioRegisters) (delay : Nat) (led : Led)

end Codes

end Blink

end Atalanta.Bsp
