import Atalanta.Obi.Signals
import Atalanta.Library.Clocked
import Mathlib.Data.Nat.Log

/-! The on-chip memories: `obi_handshake_fsm.sv`, `xilinx_sp_BRAM.sv` and their
composition `obi_sram_intf.sv` in the `FPGA_MEM` configuration. -/

namespace Atalanta.ObiSram

inductive HandshakeState
  | idle
  | ack
  | valid
deriving DecidableEq, Repr

structure HandshakeFsm where
  nextState : HandshakeState
  gnt : Bool
  rvalid : Bool

def handshakeFsm (currState : HandshakeState) (req : Bool) : HandshakeFsm :=
  match currState with
  | .idle => if req then ⟨.ack, true, false⟩ else ⟨.idle, false, false⟩
  | .ack => if req then ⟨.ack, true, true⟩ else ⟨.idle, false, true⟩
  | .valid => ⟨.idle, false, true⟩

def nbCol : Nat := 4
def colWidth : Nat := 8

def writeColumn (row wdata : BitVec 32) (i : Nat) : BitVec 32 :=
  let mask : BitVec 32 := 0xFF#32 <<< (colWidth * i)
  (row &&& ~~~mask) ||| (wdata &&& mask)

def writeColumns (row wdata : BitVec 32) (bwe : BitVec 4) : BitVec 32 :=
  (List.finRange nbCol).foldl
    (fun current (i : Fin nbCol) =>
      if bwe.getLsbD i then writeColumn current wdata i else current) row

structure Bram where
  bram : Nat → BitVec 32
  rdataO : BitVec 32

-- rows outside the depth are not written and read as zero
def Bram.next (ramDepth : Nat) (state : Bram) (req : Bool) (addr : Nat) (wdata : BitVec 32)
    (bwe : BitVec 4) : Bram where
  bram row :=
    if req ∧ row = addr ∧ row < ramDepth then writeColumns (state.bram row) wdata bwe
    else state.bram row
  rdataO :=
    if req then (if addr < ramDepth then state.bram addr else 0) else state.rdataO

def offsetAddr (baseAddr addr : BitVec 32) : BitVec 32 := addr - baseAddr

def wordAddr (baseAddr addr : BitVec 32) : BitVec 30 :=
  (offsetAddr baseAddr addr).extractLsb' 2 30

/-- `word_addr[AddrWidth-1:0]` with `AddrWidth = $clog2(NumWords)`; the select is empty,
and not legal in the source, for a memory of one word. -/
def sramAddr (numWords : Nat) (baseAddr addr : BitVec 32) : Nat :=
  ((wordAddr baseAddr addr).setWidth (Nat.clog 2 numWords)).toNat

def bwEna (obi : ObiReq) : BitVec 4 := if obi.we then 0b1111#4 &&& obi.be else 0

structure State where
  fsm : HandshakeState
  sram : Bram

structure Output where
  gnt : Bool
  rvalid : Bool
  rdata : BitVec 32

def next (numWords : Nat) (baseAddr : BitVec 32) (state : State) (obi : ObiReq) : State where
  fsm := (handshakeFsm state.fsm obi.req).nextState
  sram := state.sram.next numWords obi.req (sramAddr numWords baseAddr obi.addr) obi.wdata
    (bwEna obi)

def out (state : State) (obi : ObiReq) : Output where
  gnt := (handshakeFsm state.fsm obi.req).gnt
  rvalid := (handshakeFsm state.fsm obi.req).rvalid
  rdata := state.sram.rdataO

/-- Reset leaves the rows alone, so a run may begin with any contents. -/
def resetWith (contents : Nat → BitVec 32) : State := ⟨.idle, ⟨contents, 0⟩⟩

def circuit (numWords : Nat) (baseAddr : BitVec 32) : Clocked.Circuit State ObiReq Output where
  reset := resetWith fun _ => 0
  next := next numWords baseAddr
  out := out

end Atalanta.ObiSram
