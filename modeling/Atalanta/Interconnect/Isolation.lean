import Atalanta.Interconnect.AddressSpace

/-! Addresses outside the maps: the holes of the general mapping, and the `decode` process
of `rt_peripherals.sv`. -/

namespace Atalanta.RtPeripherals

open RtPkg

def apbTimerStartAddr : Nat := 0x00030300
def apbTimerEndAddr : Nat := 0x000303FF
def apbSpiMasterStartAddr : Nat := 0x00030400
def apbSpiMasterEndAddr : Nat := 0x000304FF
def cfgRegsStartAddr : Nat := 0x00030500
def cfgRegsEndAddr : Nat := 0x000305FF

def Inside (low high addr : Nat) : Prop := low ≤ addr ∧ addr ≤ high

instance (low high addr : Nat) : Decidable (Inside low high addr) :=
  inferInstanceAs (Decidable (_ ∧ _))

def decode (paddr : Nat) : BitVec 3 :=
  if Inside gpioStartAddr gpioEndAddr paddr then 0x0
  else if Inside uartStartAddr uartEndAddr paddr then 0x1
  else if Inside mTimerStartAddr mTimerEndAddr paddr then 0x2
  else if Inside clicStartAddr clicEndAddr paddr then 0x3
  else if Inside apbSpiMasterStartAddr apbSpiMasterEndAddr paddr then 0x4
  else if Inside apbTimerStartAddr apbTimerEndAddr paddr then 0x5
  else if Inside cfgRegsStartAddr cfgRegsEndAddr paddr then 0x6
  else 0x0

def peripheralRanges : List (Nat × Nat) :=
  [(gpioStartAddr, gpioEndAddr), (uartStartAddr, uartEndAddr),
    (mTimerStartAddr, mTimerEndAddr), (clicStartAddr, clicEndAddr),
    (apbSpiMasterStartAddr, apbSpiMasterEndAddr), (apbTimerStartAddr, apbTimerEndAddr),
    (cfgRegsStartAddr, cfgRegsEndAddr)]

def InPeripheral (addr : Nat) : Prop := ∃ range ∈ peripheralRanges, Inside range.1 range.2 addr

instance (addr : Nat) : Decidable (InPeripheral addr) :=
  inferInstanceAs (Decidable (∃ range ∈ peripheralRanges, _))

def wordBase (addr : Nat) : Nat := addr / 4 * 4

theorem decode_of_not_inPeripheral {paddr : Nat} (outside : ¬InPeripheral paddr) :
    decode paddr = 0 := by
  have missed : ∀ low high, (low, high) ∈ peripheralRanges → ¬Inside low high paddr :=
    fun low high listed inside => outside ⟨(low, high), listed, inside⟩
  unfold decode
  rw [if_neg (missed _ _ (by decide)), if_neg (missed _ _ (by decide)),
    if_neg (missed _ _ (by decide)), if_neg (missed _ _ (by decide)),
    if_neg (missed _ _ (by decide)), if_neg (missed _ _ (by decide)),
    if_neg (missed _ _ (by decide))]

theorem wordBase_inPeripheral {addr : Nat} (inside : InPeripheral addr) :
    InPeripheral (wordBase addr) := by
  obtain ⟨range, listed, above, below⟩ := inside
  have aligned : range.1 % 4 = 0 :=
    (by decide : ∀ range ∈ peripheralRanges, range.1 % 4 = 0) range listed
  refine ⟨range, listed, ?_⟩
  unfold wordBase Inside
  omega

/-- The bytes of a word lie in a range together, but for the one range, MTIMER's, that ends
inside a word. -/
theorem inside_word {left right : Nat} (same : wordBase left = wordBase right)
    (notCtrl : wordBase left ≠ mTimerEndAddr) (low high : Nat)
    (listed : (low, high) ∈ peripheralRanges) : Inside low high left ↔ Inside low high right := by
  obtain ⟨starts, ends⟩ := (by decide : ∀ range ∈ peripheralRanges,
    range.1 % 4 = 0 ∧ (range.2 % 4 = 3 ∨ range.2 = mTimerEndAddr)) (low, high) listed
  unfold wordBase at same notCtrl
  unfold mTimerEndAddr at notCtrl ends
  unfold Inside
  omega

theorem decode_word {left right : Nat} (same : wordBase left = wordBase right)
    (notCtrl : wordBase left ≠ mTimerEndAddr) : decode left = decode right := by
  have whole := inside_word same notCtrl
  unfold decode
  simp only [whole gpioStartAddr gpioEndAddr (by decide),
    whole uartStartAddr uartEndAddr (by decide),
    whole mTimerStartAddr mTimerEndAddr (by decide),
    whole clicStartAddr clicEndAddr (by decide),
    whole apbSpiMasterStartAddr apbSpiMasterEndAddr (by decide),
    whole apbTimerStartAddr apbTimerEndAddr (by decide),
    whole cfgRegsStartAddr cfgRegsEndAddr (by decide)]

end Atalanta.RtPeripherals

namespace Atalanta.Routing

open Interconnect RtPkg RtPeripherals

def Unmapped (addr : BitVec 32) : Prop := ∀ rule ∈ generalMap, ¬rule.Contains addr.toNat

instance (addr : BitVec 32) : Decidable (Unmapped addr) :=
  inferInstanceAs (Decidable (∀ rule ∈ generalMap, _))

inductive Memory
  | imem
  | dmem
  | sram
deriving DecidableEq, Repr

def Endpoint.memory : Endpoint → Option Memory
  | .imem _ => some .imem
  | .dmem _ => some .dmem
  | .sram _ _ => some .sram
  | _ => none

variable {fabric : Fabric} {debug : DebugState} {addr : BitVec 32} {served : Endpoint}

theorem mainAddrMap_ranges : ∀ rule ∈ mainAddrMap, rule.toRange ∈ generalMap := by
  decide

theorem Unmapped.high (unmapped : Unmapped addr) : ¬addr.toNat < imemRule.stop := by
  intro low
  have notDbg := unmapped dbgRule (by decide)
  have notImem := unmapped imemRule (by decide)
  simp only [Range.Contains, dbgRule, imemRule] at notDbg notImem low
  omega

theorem Unmapped.port (unmapped : Unmapped addr) (documented : fabric.Documented) :
    portEndpoint addr (fabric.xbarPort mainAddrMap addr.toNat) = some (.dmem (dmemRow addr)) := by
  have noRule : ∀ rule ∈ mainAddrMap, ¬rule.Contains addr.toNat :=
    fun rule listed => unmapped rule.toRange (mainAddrMap_ranges rule listed)
  rw [documented.xbar.miss mainAddrMap addr.toNat noRule]
  simp only [portEndpoint, if_neg unmapped.high]

theorem unmapped_data_access (documented : fabric.Documented) (unmapped : Unmapped addr)
    (initiator : Initiator) : DataAccess fabric debug addr initiator (.dmem (dmemRow addr)) :=
  data_access_of_port documented (unmapped.port documented) fun _ => rfl

theorem unmapped_fetch (documented : fabric.Documented) (unmapped : Unmapped addr) :
    Fetch fabric debug addr
      (if ifDbgSel debug then .dmem (dmemRow addr) else .bootRom (romAddr addr)) := by
  cases active : ifDbgSel debug with
  | true => exact (debug_fetch documented active).mpr (unmapped.port documented)
  | false =>
      rw [normal_fetch documented active, if_neg unmapped.high]
      rfl

/-- What the decoders keep apart: a hole of the general map never leads to IMEM or SRAM, nor,
for a fetch outside debug, to any memory; a word outside the peripheral ranges selects only
the default output of the APB demux; and but for the last word of MTIMER, in which its range
ends, the bytes of a word in a peripheral range select the same peripheral. -/
theorem unmapped_isolated (fabric : Fabric) (documented : fabric.Documented)
    (debug : DebugState) :
    (∀ addr, Unmapped addr →
      (∀ initiator served, DataAccess fabric debug addr initiator served →
        served.memory ≠ some .imem ∧ served.memory ≠ some .sram) ∧
      (∀ served, Fetch fabric debug addr served →
        served.memory ≠ some .imem ∧ served.memory ≠ some .sram ∧
        (ifDbgSel debug = false → served.memory = none))) ∧
    (∀ addr : BitVec 32, ¬InPeripheral (wordBase addr.toNat) → decode addr.toNat = 0) ∧
    (∀ left right : BitVec 32, wordBase left.toNat = wordBase right.toNat →
      wordBase left.toNat ≠ mTimerEndAddr → decode left.toNat = decode right.toNat) := by
  refine ⟨fun addr unmapped => ⟨?_, ?_⟩, ?_, ?_⟩
  · intro initiator served reaches
    rw [reaches.unique (unmapped_data_access documented unmapped initiator)]
    exact ⟨by simp [Endpoint.memory], by simp [Endpoint.memory]⟩
  · intro served reaches
    rw [reaches.unique (unmapped_fetch documented unmapped)]
    cases ifDbgSel debug <;> simp [Endpoint.memory]
  · exact fun addr outside =>
      decode_of_not_inPeripheral fun inside => outside (wordBase_inPeripheral inside)
  · exact fun left right same notCtrl => decode_word same notCtrl

theorem unmapped_isolated_hole :
    (∀ served, DataAccess firstMatchFabric running 0x9300 .lsu served →
      served.memory ≠ some .imem ∧ served.memory ≠ some .sram) ∧
    decode 0x30600 = 0 := by
  obtain ⟨holes, peripherals, _⟩ :=
    unmapped_isolated firstMatchFabric firstMatchFabric_documented running
  exact ⟨(holes 0x9300 (by decide)).1 .lsu, peripherals 0x30600 (by decide)⟩

/-- A load from the hole above the boot ROM reads a cell of DMEM, an address between the
peripherals selects GPIO, and the second byte of MTIMER's CTRL misses MTIMER. -/
theorem unmapped_reaches_dmem :
    firstMatchFabric.Documented ∧
      (Unmapped 0x9300 ∧ DataAccess firstMatchFabric running 0x9300 .lsu (.dmem 192)) ∧
      (apbRule.Contains 0x30600 ∧ ¬InPeripheral 0x30600 ∧ decode 0x30600 = 0) ∧
      (decode 0x30210 = 2 ∧ decode 0x30211 = 0) := by
  refine ⟨firstMatchFabric_documented, ⟨by decide, ?_⟩, by decide, by decide⟩
  exact unmapped_data_access firstMatchFabric_documented (by decide) .lsu

end Atalanta.Routing
