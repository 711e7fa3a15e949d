/-! OBI signals between a manager and a subordinate. -/

namespace Atalanta

structure ObiTransfer where
  addr : BitVec 32
  we : Bool
  be : BitVec 4
  wdata : BitVec 32
deriving DecidableEq, Repr

structure ObiReq extends ObiTransfer where
  req : Bool
deriving DecidableEq, Repr

def ObiReq.idle : ObiReq := ⟨⟨0, false, 0, 0⟩, false⟩

def ObiReq.read (addr : BitVec 32) : ObiReq := ⟨⟨addr, false, 0b1111, 0⟩, true⟩

def ObiReq.write (addr : BitVec 32) (be : BitVec 4) (wdata : BitVec 32) : ObiReq :=
  ⟨⟨addr, true, be, wdata⟩, true⟩

end Atalanta
