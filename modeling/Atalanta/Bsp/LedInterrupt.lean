import Atalanta.Bsp.Led
import Atalanta.Library.Interrupted
import Mathlib.Algebra.Ring.Nat

/-! Interrupts between the accesses of GPIO calls. Every call reads a word and writes it back, and
so takes back what an interrupt between the two has done to that word. -/

namespace Atalanta.Bsp

open BusProgram

section Words

variable (handler : List GpioCall) (runs : Nat → Nat)

def handled (registers : GpioRegisters) : GpioRegisters := handler.foldl GpioCall.step registers

end Words

/-! Bits -/

section Bits

variable (handler : List GpioCall) (runs : Nat → Nat) (register : Fin 14) {pin : Nat}

/-- How often the handler has run by the end of the calls from a point on, but for the runs between
the read and the write of a call on the register. -/
def counted : List GpioCall → (point : Nat) → Nat
  | [], point => runs point
  | call :: calls, point =>
    runs point + (if call.op.register = register then 0 else runs (point + 1)) +
      counted calls (point + 2)

end Bits

/-! A handler with a LED of its own -/

section Handler

variable (runs : Nat → Nat)

section Registers

variable (calls : List LedCall)

end Registers

end Handler

end Atalanta.Bsp
