import Atalanta.Library.Device
import Mathlib.Logic.Function.Iterate

/-! A program between whose accesses interrupts run, any number of times at each point. The
interrupt is what its handler does to the device. -/

namespace BusProgram

variable {τ α δ β γ : Type}

section Interrupted

variable (device : Device τ α δ) (interrupt : τ → τ) (runs : Nat → Nat)

end Interrupted

end BusProgram
