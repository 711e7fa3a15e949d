import Atalanta.Interconnect.RtPkg
import Atalanta.Obi.SramMemory

/-! How requests travel: the selects and joins of `rt_core.sv`, the rule table and ports of
`rt_interconnect.sv` and the buses of `rt_top.sv`. A request keeps its address on the way,
so every net is described by where a request with a given address goes from it. -/

namespace Atalanta.Routing

open Interconnect RtPkg

inductive Bus
  -- rt_core
  | ifMgr
  | lsuMgr
  | ifDemux (port : Nat)
  | lsuDemux (port : Nat)
  | extDemux (port : Nat)
  | imemMux (port : Nat)
  | dmemMux (port : Nat)
  | extMux (port : Nat)
  | imemSbr
  | dmemSbr
  -- rt_top; `main_xbar_mgr` and `main_xbar_sbr` of the core are the core buses
  | coreMgrBus
  | coreSbrBus
  | axiMgrBus
  | axiSbrBus
  | dbgMgrBus
  | dbgRomBus
  | demuxSbrBus (port : Nat)
  | dmaMgrBus
  | dmaDmuxBus (dma : Nat)
  | dmaRdBus (dma : Nat)
  | dmaWrBus (dma : Nat)
  -- rt_interconnect
  | mgrBus (port : Nat)
  | sbrBus (port : Nat)
  | sramBus (bank : Nat)
  | apbBus
deriving DecidableEq, Repr

/-- What serves a request: the row of a memory, the word of the boot ROM (two instances with
the same contents), or a device that decodes the address itself. -/
inductive Endpoint
  | imem (row : Nat)
  | dmem (row : Nat)
  | sram (bank row : Nat)
  | bootRom (word : Nat)
  | debugModule (addr : BitVec 32)
  | dmaRegs (dma : Nat) (addr : BitVec 32)
  | apbBridge (addr : BitVec 32)
  | axiMaster (addr : BitVec 32)
deriving DecidableEq, Repr

/-- The port choice of the vendored `obi_xbar_intf` and `obi_demux_intf`. -/
structure Fabric where
  xbarPort : List XbarRule → Nat → Nat
  demuxPort : (numMgrPorts select : Nat) → Nat

structure Fabric.Documented (fabric : Fabric) : Prop where
  xbar : Decodes fabric.xbarPort 0
  demux : ∀ numMgrPorts select, select < numMgrPorts →
    fabric.demuxPort numMgrPorts select = select

structure DebugState where
  debugMode : Bool
  debugReqI : Bool

/-! `rt_core` -/

def ifDbgSel (debug : DebugState) : Bool := debug.debugMode || debug.debugReqI

def lsuDmemHit (req : Bool) (addr : BitVec 32) : Bool :=
  req && (dmemRule.start ≤ addr.toNat && addr.toNat < dmemRule.stop)

def lsuSel (debug : DebugState) (req : Bool) (addr : BitVec 32) : Bool :=
  ifDbgSel debug || !lsuDmemHit req addr

def ifSel (debug : DebugState) (addr : BitVec 32) : Nat :=
  if ifDbgSel debug then 0b01 else if addr.toNat < imemRule.stop then 0b00 else 0b10

def extSel (addr : BitVec 32) : Bool := !(addr.toNat < imemRule.stop)

def sramRow (numWords baseAddr : Nat) (addr : BitVec 32) : Nat :=
  ObiSram.sramAddr numWords (BitVec.ofNat 32 baseAddr) addr

-- one bit of the byte address
def romAddr (addr : BitVec 32) : Nat := (addr.setWidth 1).toNat

def rtCore (fabric : Fabric) (debug : DebugState) (addr : BitVec 32) : Bus → Hop Bus Endpoint
  | .ifMgr => some (.inl (.ifDemux (fabric.demuxPort 3 (ifSel debug addr))))
  | .lsuMgr => some (.inl (.lsuDemux (fabric.demuxPort 2 (lsuSel debug true addr).toNat)))
  | .coreSbrBus => some (.inl (.extDemux (fabric.demuxPort 2 (extSel addr).toNat)))
  | .ifDemux 0 => some (.inl (.imemMux 0))
  | .ifDemux 1 => some (.inl (.extMux 0))
  | .ifDemux 2 => some (.inr (.bootRom (romAddr addr)))
  | .lsuDemux 0 => some (.inl (.dmemMux 0))
  | .lsuDemux 1 => some (.inl (.extMux 1))
  | .extDemux 0 => some (.inl (.imemMux 1))
  | .extDemux 1 => some (.inl (.dmemMux 1))
  | .imemMux _ => some (.inl .imemSbr)
  | .dmemMux _ => some (.inl .dmemSbr)
  | .extMux _ => some (.inl .coreMgrBus)
  | .imemSbr => some (.inr (.imem (sramRow (imemSizeBytes / 4) imemRule.start addr)))
  | .dmemSbr => some (.inr (.dmem (sramRow (dmemSizeBytes / 4) dmemRule.start addr)))
  | _ => none

/-! `rt_interconnect` -/

def bankRule (numMemBanks i : Nat) : XbarRule where
  idx := 5 + i
  start := sramRule.start + sramSizeBytes * (i * 1 / numMemBanks)
  stop := sramRule.start + sramSizeBytes * ((i + 1) * 1 / numMemBanks)

def sramRules (numMemBanks : Nat) : List XbarRule :=
  (List.range numMemBanks).map (bankRule numMemBanks)

def otherRules : List XbarRule :=
  [⟨imemRule, 0⟩, ⟨dmemRule, 0⟩, ⟨dbgRule, 1⟩, ⟨romRule, 1⟩, ⟨apbRule, 2⟩, ⟨axiRule, 3⟩,
    ⟨dmaRule, 4⟩]

def mainAddrMap : List XbarRule := otherRules ++ sramRules numMemBanks

-- the ports are cut on both sides, which keeps the order and contents of the requests
def rtInterconnect (fabric : Fabric) (addr : BitVec 32) : Bus → Hop Bus Endpoint
  | .coreMgrBus => some (.inl (.mgrBus 0))
  | .dbgMgrBus => some (.inl (.mgrBus 1))
  | .axiSbrBus => some (.inl (.mgrBus 2))
  | .dmaRdBus i => some (.inl (.mgrBus (3 + 2 * i)))
  | .dmaWrBus i => some (.inl (.mgrBus (4 + 2 * i)))
  | .mgrBus _ => some (.inl (.sbrBus (fabric.xbarPort mainAddrMap addr.toNat)))
  | .sbrBus 0 => some (.inl .coreSbrBus)
  | .sbrBus 1 => some (.inl .dbgRomBus)
  | .sbrBus 2 => some (.inl .apbBus)
  | .sbrBus 3 => some (.inl .axiMgrBus)
  | .sbrBus 4 => some (.inl .dmaMgrBus)
  | .sbrBus (i + 5) => if i < numMemBanks then some (.inl (.sramBus i)) else none
  | .sramBus i => some (.inr (.sram i (sramRow (sramSizeBytes / 4 / numMemBanks)
      (sramRule.start + sramSizeBytes * (i * 1 / numMemBanks)) addr)))
  | .apbBus => some (.inr (.apbBridge addr))
  | _ => none

/-! `rt_top` -/

-- `demux_sbr_bus` feeds a boot ROM, but no module drives it
def rtTop (addr : BitVec 32) : Bus → Hop Bus Endpoint
  | .demuxSbrBus 0 => some (.inr (.bootRom (romAddr addr)))
  | .dbgRomBus => some (.inr (.debugModule addr))
  | .dmaMgrBus => some (.inl (.dmaDmuxBus 0))
  | .dmaDmuxBus i => some (.inr (.dmaRegs i addr))
  | .axiMgrBus => some (.inr (.axiMaster addr))
  | _ => none

/-- The hop of a request from a net; each net is read by one of the modules. -/
def hop (fabric : Fabric) (debug : DebugState) (addr : BitVec 32) (net : Bus) :
    Hop Bus Endpoint :=
  (rtCore fabric debug addr net).or ((rtInterconnect fabric addr net).or (rtTop addr net))

inductive Initiator
  | lsu
  | debugSba
  | axiSlave
  | dmaRead (dma : Fin numDMAs)
  | dmaWrite (dma : Fin numDMAs)
deriving DecidableEq, Repr

def Initiator.bus : Initiator → Bus
  | .lsu => .lsuMgr
  | .debugSba => .dbgMgrBus
  | .axiSlave => .axiSbrBus
  | .dmaRead dma => .dmaRdBus dma
  | .dmaWrite dma => .dmaWrBus dma

variable (fabric : Fabric) (debug : DebugState) (addr : BitVec 32)

def DataAccess (initiator : Initiator) (served : Endpoint) : Prop :=
  Reaches (hop fabric debug addr) initiator.bus served

def Fetch (served : Endpoint) : Prop := Reaches (hop fabric debug addr) .ifMgr served

end Atalanta.Routing
