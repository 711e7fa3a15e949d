/-! APB signals as the peripherals of the subsystem see them. -/

namespace Atalanta

structure ApbIn where
  psel : Bool
  penable : Bool
  pwrite : Bool
  paddr : BitVec 32
  pwdata : BitVec 32
deriving DecidableEq, Repr

def ApbIn.idle : ApbIn := ⟨false, false, false, 0, 0⟩

def ApbIn.read (addr : BitVec 32) : ApbIn := ⟨true, true, false, addr, 0⟩

def ApbIn.write (addr data : BitVec 32) : ApbIn := ⟨true, true, true, addr, data⟩

structure ApbOut where
  prdata : BitVec 32
  pready : Bool
  pslverr : Bool
deriving DecidableEq, Repr

end Atalanta
