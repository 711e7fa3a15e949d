import Atalanta.Apb
import Atalanta.Library.BusProgram

/-! Memory-mapped accesses of the board support package, and the APB cycles that carry them. -/

namespace Atalanta.Bsp

open BusProgram

abbrev Driver := Program (BitVec 32) (BitVec 32)

def readU32 (addr : BitVec 32) : Driver (BitVec 32) := readWord addr

def writeU32 (addr val : BitVec 32) : Driver Unit := writeWord addr val

def maskU32 (addr mask : BitVec 32) : Driver Unit := do
  let r ← readU32 addr
  writeU32 addr (r ||| mask)

def unmaskU32 (addr unmask : BitVec 32) : Driver Unit := do
  let r ← readU32 addr
  writeU32 addr (r &&& ~~~unmask)

def toggleU32 (addr toggleBits : BitVec 32) : Driver Unit := do
  let r ← readU32 addr
  writeU32 addr (r ^^^ toggleBits)

-- the byte registers are at word addresses, so that their bytes are in the lowest lane
def readU8 (addr : BitVec 32) : Driver (BitVec 8) := do
  let word ← readU32 addr
  return word.setWidth 8

def readU8Masked (addr : BitVec 32) (mask : BitVec 8) : Driver (BitVec 8) := do
  let val ← readU8 addr
  return val &&& mask

def writeU8 (addr : BitVec 32) (val : BitVec 8) : Driver Unit := writeU32 addr (val.setWidth 32)

def maskU8 (addr : BitVec 32) (mask : BitVec 8) : Driver Unit := do
  let r ← readU8 addr
  writeU8 addr (r ||| mask)

def unmaskU8 (addr : BitVec 32) (unmask : BitVec 8) : Driver Unit := do
  let r ← readU8 addr
  writeU8 addr (r &&& ~~~unmask)

theorem offset_ne (base : BitVec 32) {first second : BitVec 32} (differ : first ≠ second) :
    base + first ≠ base + second :=
  fun same => differ ((BitVec.add_right_inj base).mp same)

/-- An access is done in the one cycle in which the completer is enabled. -/
def apbBus {ο : Type} (apb : ο → ApbOut) : Bus ApbIn ο (BitVec 32) (BitVec 32) where
  reads addr bus :=
    bus.psel = true ∧ bus.penable = true ∧ bus.pwrite = false ∧ bus.paddr = addr
  writes addr data bus := bus = .write addr data
  data out := (apb out).prdata

end Atalanta.Bsp
