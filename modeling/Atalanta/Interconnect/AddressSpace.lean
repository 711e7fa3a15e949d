import Atalanta.Interconnect.Routes

/-! The memory map as software sees it: data accesses and instruction fetches against the
device that the general address mapping names. -/

namespace Atalanta.Routing

open Interconnect RtPkg

def cell (rule : AddrRule) (addr : BitVec 32) : Nat :=
  ((addr - BitVec.ofNat 32 rule.start) >>> 2).toNat

inductive Named (addr : BitVec 32) : Endpoint → Prop
  | dbg : dbgRule.Contains addr.toNat → Named addr (.debugModule addr)
  | imem : imemRule.Contains addr.toNat → Named addr (.imem (cell imemRule addr))
  | dmem : dmemRule.Contains addr.toNat → Named addr (.dmem (cell dmemRule addr))
  | rom : romRule.Contains addr.toNat → Named addr (.bootRom (romAddr addr))
  | dma : dmaRule.Contains addr.toNat → Named addr (.dmaRegs 0 addr)
  | sram : sramRule.Contains addr.toNat → Named addr (.sram 0 (cell sramRule addr))
  | apb : apbRule.Contains addr.toNat → Named addr (.apbBridge addr)

theorem sramRow_eq_cell (depth : Nat) {rule : AddrRule} {addr : BitVec 32}
    (size : rule.stop = rule.start + 4 * 2 ^ depth)
    (inside : rule.Contains addr.toNat) :
    sramRow (2 ^ depth) rule.start addr = cell rule addr := by
  obtain ⟨above, below⟩ := inside
  have positive : 0 < 2 ^ depth := Nat.two_pow_pos depth
  have base : (BitVec.ofNat 32 rule.start).toNat = rule.start :=
    Nat.mod_eq_of_lt (by omega)
  have offset : (addr - BitVec.ofNat 32 rule.start).toNat = addr.toNat - rule.start := by
    rw [BitVec.toNat_sub_of_le (BitVec.le_def.mpr (by omega)), base]
  unfold sramRow
  rw [ObiSram.sramAddr_eq depth _ addr ⟨by omega, by omega⟩, ObiSram.wordIndex, cell,
    BitVec.toNat_ushiftRight, offset, base, Nat.shiftRight_eq_div_pow]

variable {fabric : Fabric} {debug : DebugState} {addr : BitVec 32} {served : Endpoint}

theorem imemRow_eq_cell (inside : imemRule.Contains addr.toNat) :
    imemRow addr = cell imemRule addr :=
  sramRow_eq_cell 12 rfl inside

theorem dmemRow_eq_cell (inside : dmemRule.Contains addr.toNat) :
    dmemRow addr = cell dmemRule addr :=
  sramRow_eq_cell 12 rfl inside

theorem bankRow_eq_cell (inside : sramRule.Contains addr.toNat) :
    bankRow addr = cell sramRule addr :=
  sramRow_eq_cell 14 rfl inside

theorem generalMap_apart : generalMap.Pairwise Range.Apart := by
  decide

theorem same_range {left right : AddrRule} (listed : left ∈ generalMap)
    (other : right ∈ generalMap) (inLeft : left.Contains addr.toNat)
    (inRight : right.Contains addr.toNat) : left = right := by
  by_cases same : left = right
  · exact same
  · exact absurd inRight ((generalMap_apart.forall listed other same).not_both inLeft)

theorem Named.unique {other : Endpoint} (first : Named addr served) (second : Named addr other) :
    served = other := by
  cases first <;> cases second <;> first
    | rfl
    | rename_i inFirst inSecond
      exact absurd (same_range (by decide) (by decide) inFirst inSecond) (by decide)

theorem portEndpoint_named (documented : fabric.Documented) (named : Named addr served)
    (notRom : ¬romRule.Contains addr.toNat) :
    portEndpoint addr (fabric.xbarPort mainAddrMap addr.toNat) = some served := by
  cases named with
  | dbg inside =>
      rw [xbarPort_of_rule documented ⟨dbgRule, 1⟩ (by decide) inside]
      rfl
  | imem inside =>
      have low : addr.toNat < imemRule.stop := inside.lt_stop (by decide)
      rw [xbarPort_of_rule documented ⟨imemRule, 0⟩ (by decide) inside]
      simp only [portEndpoint, if_pos low, imemRow_eq_cell inside]
  | dmem inside =>
      have high : ¬addr.toNat < imemRule.stop := not_lt.mpr inside.1
      rw [xbarPort_of_rule documented ⟨dmemRule, 0⟩ (by decide) inside]
      simp only [portEndpoint, if_neg high, dmemRow_eq_cell inside]
  | rom inside => exact absurd inside notRom
  | dma inside =>
      rw [xbarPort_of_rule documented ⟨dmaRule, 4⟩ (by decide) inside]
      rfl
  | sram inside =>
      rw [xbarPort_of_rule documented ⟨sramRule, 5⟩ (by decide) inside]
      simp only [portEndpoint, bankRow_eq_cell inside]
  | apb inside =>
      rw [xbarPort_of_rule documented ⟨apbRule, 2⟩ (by decide) inside]
      rfl

theorem portEndpoint_rom (documented : fabric.Documented)
    (inside : romRule.Contains addr.toNat) :
    portEndpoint addr (fabric.xbarPort mainAddrMap addr.toNat) = some (.debugModule addr) := by
  rw [xbarPort_of_rule documented ⟨romRule, 1⟩ (by decide) inside]
  rfl

theorem lsuSel_eq_false_iff :
    lsuSel debug true addr = false ↔ ifDbgSel debug = false ∧ dmemRule.Contains addr.toNat := by
  have bounded : dmemRule.stop ≠ 0 := by decide
  simp only [lsuSel, lsuDmemHit, Range.Contains, bounded, Bool.or_eq_false_iff,
    Bool.not_eq_false', Bool.true_and, Bool.and_eq_true, decide_eq_true_eq, or_false]

theorem data_access_of_port (documented : fabric.Documented) {initiator : Initiator}
    (port : portEndpoint addr (fabric.xbarPort mainAddrMap addr.toNat) = some served)
    (short : dmemRule.Contains addr.toNat → served = .dmem (dmemRow addr)) :
    DataAccess fabric debug addr initiator served := by
  by_cases near : initiator = .lsu ∧ lsuSel debug true addr = false
  · obtain ⟨rfl, choice⟩ := near
    have inside := (lsuSel_eq_false_iff.mp choice).2
    exact (lsu_short documented choice).mpr (short inside)
  · apply (crossbar_data documented initiator ?_).mpr port
    intro lsu
    cases choice : lsuSel debug true addr with
    | false => exact absurd ⟨lsu, choice⟩ near
    | true => rfl

theorem data_access_named (documented : fabric.Documented) (named : Named addr served)
    (notRom : ¬romRule.Contains addr.toNat) (initiator : Initiator) :
    DataAccess fabric debug addr initiator served := by
  apply data_access_of_port documented (portEndpoint_named documented named notRom)
  intro inside
  rw [dmemRow_eq_cell inside]
  exact named.unique (.dmem inside)

theorem not_dmem_of_rom (rom : romRule.Contains addr.toNat) : ¬dmemRule.Contains addr.toNat := by
  intro dmem
  exact absurd (same_range (by decide) (by decide) rom dmem) (by decide)

theorem data_access_rom (documented : fabric.Documented) (rom : romRule.Contains addr.toNat)
    (initiator : Initiator) : DataAccess fabric debug addr initiator (.debugModule addr) :=
  data_access_of_port documented (portEndpoint_rom documented rom)
    fun dmem => absurd dmem (not_dmem_of_rom rom)

/-- A mapped data access reaches the device that the map names exactly when the address is
not one of the boot ROM, whose crossbar port carries on to the debug module: the demux that
`rt_top` prepares for it is missing. -/
theorem data_access_named_iff (fabric : Fabric) (documented : fabric.Documented)
    (initiator : Initiator) (debug : DebugState) (addr : BitVec 32) (served : Endpoint)
    (named : Named addr served) :
    DataAccess fabric debug addr initiator served ↔ ¬romRule.Contains addr.toNat := by
  constructor
  · intro reaches rom
    have boot : served = .bootRom (romAddr addr) := named.unique (.rom rom)
    have debugged := reaches.unique (data_access_rom documented rom initiator)
    rw [boot] at debugged
    cases debugged
  · exact fun notRom => data_access_named documented named notRom initiator

def firstMatchFabric : Fabric := ⟨firstMatch 0, fun _ select => select⟩

theorem firstMatchFabric_documented : firstMatchFabric.Documented :=
  ⟨firstMatch_decodes 0, fun _ _ _ => rfl⟩

def running : DebugState := ⟨false, false⟩

theorem data_access_named_dmem : DataAccess firstMatchFabric running 0x5004 .lsu (.dmem 1) :=
  (data_access_named_iff firstMatchFabric firstMatchFabric_documented .lsu running 0x5004
    (.dmem 1) (.dmem (by decide))).mpr (by decide)

/-- A load from the start of the boot ROM ends in the debug module. -/
theorem data_access_rom_missed :
    firstMatchFabric.Documented ∧ Named 0x9000 (.bootRom 0) ∧
      DataAccess firstMatchFabric running 0x9000 .lsu (.debugModule 0x9000) ∧
      ¬DataAccess firstMatchFabric running 0x9000 .lsu (.bootRom 0) := by
  have reached : DataAccess firstMatchFabric running 0x9000 .lsu (.debugModule 0x9000) :=
    data_access_rom firstMatchFabric_documented (by decide) .lsu
  refine ⟨firstMatchFabric_documented, .rom (by decide), reached, fun other => ?_⟩
  cases reached.unique other

/-- Loads agree with the map, and fetches with loads, as far as the fetch port reaches: in
debug it is the crossbar, otherwise IMEM and, from the end of IMEM on, the boot ROM. -/
theorem fetch_and_load (fabric : Fabric) (documented : fabric.Documented) (debug : DebugState)
    (addr : BitVec 32) (served : Endpoint) (named : Named addr served) :
    (¬romRule.Contains addr.toNat → DataAccess fabric debug addr .lsu served) ∧
    (imemRule.Contains addr.toNat ∨
      ifDbgSel debug = true ∧ ¬romRule.Contains addr.toNat ∨
      ifDbgSel debug = false ∧ romRule.Contains addr.toNat → Fetch fabric debug addr served) ∧
    (ifDbgSel debug = false → ∀ fetched, Fetch fabric debug addr fetched ↔
      fetched = if addr.toNat < imemRule.stop then .imem (imemRow addr)
        else .bootRom (romAddr addr)) := by
  refine ⟨fun notRom => data_access_named documented named notRom .lsu, ?_,
    fun inactive fetched => normal_fetch documented inactive⟩
  have viaCrossbar : ifDbgSel debug = true → ¬romRule.Contains addr.toNat →
      Fetch fabric debug addr served := fun active notRom =>
    (debug_fetch documented active).mpr (portEndpoint_named documented named notRom)
  rintro (imem | ⟨active, notRom⟩ | ⟨inactive, rom⟩)
  · cases choice : ifDbgSel debug with
    | true =>
        apply viaCrossbar choice
        exact fun rom => absurd (same_range (by decide) (by decide) imem rom) (by decide)
    | false =>
        rw [normal_fetch documented choice, if_pos (imem.lt_stop (by decide)),
          imemRow_eq_cell imem]
        exact named.unique (.imem imem)
  · exact viaCrossbar active notRom
  · have high : ¬addr.toNat < imemRule.stop := not_lt.mpr (le_trans (by decide) rom.1)
    rw [normal_fetch documented inactive, if_neg high]
    exact named.unique (.rom rom)

theorem fetch_and_load_imem :
    DataAccess firstMatchFabric running 0x1100 .lsu (.imem 64) ∧
      Fetch firstMatchFabric running 0x1100 (.imem 64) := by
  obtain ⟨loads, fetches, _⟩ := fetch_and_load firstMatchFabric firstMatchFabric_documented
    running 0x1100 (.imem 64) (.imem (by decide))
  exact ⟨loads (by decide), fetches (Or.inl (by decide))⟩

theorem fetch_and_load_differ :
    firstMatchFabric.Documented ∧
      Named 0x5000 (.dmem 0) ∧ DataAccess firstMatchFabric running 0x5000 .lsu (.dmem 0) ∧
      Fetch firstMatchFabric running 0x5000 (.bootRom 0) ∧
      ¬Fetch firstMatchFabric running 0x5000 (.dmem 0) := by
  have named : Named 0x5000 (.dmem 0) := .dmem (by decide)
  have fetched : Fetch firstMatchFabric running 0x5000 (.bootRom 0) :=
    (normal_fetch firstMatchFabric_documented rfl).mpr rfl
  refine ⟨firstMatchFabric_documented, named,
    data_access_named firstMatchFabric_documented named (by decide) .lsu, fetched, fun other => ?_⟩
  cases fetched.unique other

end Atalanta.Routing
