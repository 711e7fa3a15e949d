import Atalanta.Interconnect.Wiring

/-! Where requests end: one lemma for the crossbar's ports, one for data accesses and one
for instruction fetches. -/

namespace Atalanta.Routing

open Interconnect RtPkg

theorem mainAddrMap_apart :
    mainAddrMap.Pairwise fun left right => left.toRange.Apart right.toRange := by
  decide

variable {fabric : Fabric} {debug : DebugState} {addr : BitVec 32} {served : Endpoint}

theorem xbarPort_of_rule (documented : fabric.Documented) (rule : XbarRule)
    (listed : rule ∈ mainAddrMap) (inside : rule.Contains addr.toNat) :
    fabric.xbarPort mainAddrMap addr.toNat = rule.idx :=
  documented.xbar.of_apart mainAddrMap_apart listed inside

def imemRow (addr : BitVec 32) : Nat := sramRow (imemSizeBytes / 4) imemRule.start addr
def dmemRow (addr : BitVec 32) : Nat := sramRow (dmemSizeBytes / 4) dmemRule.start addr
def bankRow (addr : BitVec 32) : Nat :=
  sramRow (sramSizeBytes / 4 / numMemBanks) sramRule.start addr

/-- What serves the requests that leave a port of the main crossbar. -/
def portEndpoint (addr : BitVec 32) : Nat → Option Endpoint
  | 0 => some (if addr.toNat < imemRule.stop then .imem (imemRow addr) else .dmem (dmemRow addr))
  | 1 => some (.debugModule addr)
  | 2 => some (.apbBridge addr)
  | 3 => some (.axiMaster addr)
  | 4 => some (.dmaRegs 0 addr)
  | 5 => some (.sram 0 (bankRow addr))
  | _ => none

theorem imemMux_reaches (port : Nat) :
    Reaches (hop fabric debug addr) (.imemMux port) served ↔ served = .imem (imemRow addr) :=
  (reaches_joined rfl).trans (reaches_served rfl)

theorem dmemMux_reaches (port : Nat) :
    Reaches (hop fabric debug addr) (.dmemMux port) served ↔ served = .dmem (dmemRow addr) :=
  (reaches_joined rfl).trans (reaches_served rfl)

theorem coreSbrBus_reaches (documented : fabric.Documented) :
    Reaches (hop fabric debug addr) .coreSbrBus served ↔ portEndpoint addr 0 = some served := by
  rw [reaches_joined rfl, documented.demux 2 _ (Bool.toNat_lt _)]
  by_cases low : addr.toNat < imemRule.stop
  · rw [show (extSel addr).toNat = 0 by simp [extSel, low], reaches_joined rfl, imemMux_reaches]
    simp [portEndpoint, low, eq_comm]
  · rw [show (extSel addr).toNat = 1 by simp [extSel, low], reaches_joined rfl, dmemMux_reaches]
    simp [portEndpoint, low, eq_comm]

theorem sbrBus_reaches (documented : fabric.Documented) (port : Nat) :
    Reaches (hop fabric debug addr) (.sbrBus port) served ↔
      portEndpoint addr port = some served := by
  match port with
  | 0 => rw [reaches_joined rfl, coreSbrBus_reaches documented]
  | 1 =>
      rw [reaches_joined rfl, reaches_served rfl]
      simp [portEndpoint, eq_comm]
  | 2 =>
      rw [reaches_joined rfl, reaches_served rfl]
      simp [portEndpoint, eq_comm]
  | 3 =>
      rw [reaches_joined rfl, reaches_served rfl]
      simp [portEndpoint, eq_comm]
  | 4 =>
      rw [reaches_joined rfl, reaches_joined rfl, reaches_served rfl]
      simp [portEndpoint, eq_comm]
  | 5 =>
      rw [reaches_joined rfl, reaches_served rfl]
      simp [portEndpoint, bankRow, eq_comm]
  | port + 6 =>
      have undriven : hop fabric debug addr (.sbrBus (port + 6)) = none := by
        simp [hop, rtCore, rtInterconnect, rtTop, numMemBanks]
      exact iff_of_false (not_reaches undriven) (by simp [portEndpoint])

theorem mgrBus_reaches (documented : fabric.Documented) (port : Nat) :
    Reaches (hop fabric debug addr) (.mgrBus port) served ↔
      portEndpoint addr (fabric.xbarPort mainAddrMap addr.toNat) = some served := by
  rw [reaches_joined rfl, sbrBus_reaches documented]

theorem lsu_short (documented : fabric.Documented) (short : lsuSel debug true addr = false) :
    DataAccess fabric debug addr .lsu served ↔ served = .dmem (dmemRow addr) := by
  refine (reaches_joined rfl).trans ?_
  rw [documented.demux 2 _ (Bool.toNat_lt _), short]
  exact (reaches_joined rfl).trans (dmemMux_reaches 0)

theorem crossbar_data (documented : fabric.Documented) (initiator : Initiator)
    (long : initiator = .lsu → lsuSel debug true addr = true) :
    DataAccess fabric debug addr initiator served ↔
      portEndpoint addr (fabric.xbarPort mainAddrMap addr.toNat) = some served := by
  cases initiator with
  | lsu =>
      refine (reaches_joined rfl).trans ?_
      rw [documented.demux 2 _ (Bool.toNat_lt _), long rfl]
      exact (reaches_joined rfl).trans ((reaches_joined rfl).trans
        ((reaches_joined rfl).trans (mgrBus_reaches documented 0)))
  | debugSba => exact (reaches_joined rfl).trans (mgrBus_reaches documented 1)
  | axiSlave => exact (reaches_joined rfl).trans (mgrBus_reaches documented 2)
  | dmaRead dma => exact (reaches_joined rfl).trans (mgrBus_reaches documented _)
  | dmaWrite dma => exact (reaches_joined rfl).trans (mgrBus_reaches documented _)

theorem debug_fetch (documented : fabric.Documented) (active : ifDbgSel debug = true) :
    Fetch fabric debug addr served ↔
      portEndpoint addr (fabric.xbarPort mainAddrMap addr.toNat) = some served := by
  refine (reaches_joined rfl).trans ?_
  rw [show ifSel debug addr = 1 by simp [ifSel, active], documented.demux 3 1 (by omega)]
  exact (reaches_joined rfl).trans ((reaches_joined rfl).trans
    ((reaches_joined rfl).trans (mgrBus_reaches documented 0)))

theorem normal_fetch (documented : fabric.Documented) (inactive : ifDbgSel debug = false) :
    Fetch fabric debug addr served ↔
      served = if addr.toNat < imemRule.stop then .imem (imemRow addr)
        else .bootRom (romAddr addr) := by
  refine (reaches_joined rfl).trans ?_
  by_cases low : addr.toNat < imemRule.stop
  · rw [show ifSel debug addr = 0 by simp [ifSel, inactive, low], documented.demux 3 0 (by omega),
      if_pos low]
    exact (reaches_joined rfl).trans (imemMux_reaches 0)
  · rw [show ifSel debug addr = 2 by simp [ifSel, inactive, low], documented.demux 3 2 (by omega),
      if_neg low]
    exact reaches_served rfl

end Atalanta.Routing
