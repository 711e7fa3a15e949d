import Atalanta.Testbench.JtagScan
import Mathlib.Data.List.Induction

/-! Runs of calls of the JTAG driver. What carries over from one call to the next is that the port
idles and that a cached instruction is the one in its register. -/

namespace Atalanta.JtagDriver

open Tap

def debugTap (resetInstr irCapture : BitVec 5) (others : List Bool → Nat)
    (drCapture : Nat → Nat → Bool) : Design where
  resetInstr := bits resetInstr
  irCapture := bits irCapture
  drLength instr :=
    if instr = bits 0x11#5 then 41 else if instr = bits 0x10#5 then 32 else others instr
  drCapture := drCapture

theorem bits_setWidth {w v size : Nat} (word : BitVec w) (inside : size ≤ v) :
    (List.range size).map (word.setWidth v).getLsbD = bits (word.setWidth size) := by
  refine List.map_congr_left fun bit member => ?_
  have below := List.mem_range.mp member
  rw [BitVec.getLsbD_setWidth, BitVec.getLsbD_setWidth]
  have within : bit < v := by omega
  simp [below, within]

def toShiftIr (design : Design) (tb : Testbench) : Testbench :=
  writeTms design false (writeTms design false (writeTms design true (writeTms design true tb)))

section Instruction

variable {design : Design} {tb : Testbench}

theorem toShiftIr_eq (idle : Idle tb) :
    toShiftIr design tb =
      { tb.setTms false with
        tap := { tb.tap with controller := .shiftIr, path := design.irCapture } } := by
  have first : Live (writeTms design true tb) := idle.live.writeTms true
  have second : Live (writeTms design true (writeTms design true tb)) := first.writeTms true
  unfold toShiftIr
  rw [writeTms_eq (second.writeTms false), writeTms_eq second, writeTms_eq first,
    writeTms_eq idle.live]
  exact congrArg (fun tap => { tb.setTms false with tap })
    (cycles_toShiftIr tb.tap idle.controller idle.live.high _ _ _ _)

theorem updateIr_eq (live : Live tb) (exited : tb.tap.controller = .exit1Ir) :
    writeTms design false (writeTms design true tb) =
      { tb.setTms false with
        tap := { tb.tap with controller := .runTestIdle, instr := tb.tap.path } } := by
  rw [writeTms_eq (live.writeTms true), writeTms_eq live]
  exact congrArg (fun tap => { tb.setTms false with tap })
    (cycles_updateIr tb.tap exited live.high _ _)

/-- The instruction register has been given the opcode; no data register was captured or updated. -/
structure Loaded (before : Testbench) (opcode : BitVec 32) (after : Testbench) : Prop where
  idle : Idle after
  instr : after.tap.instr = bits (opcode.setWidth 5)
  captures : after.tap.captures = before.tap.captures
  updates : after.tap.updates = before.tap.updates
  jtagIr : after.jtagIr = opcode.setWidth 8

variable (design) in
theorem toShiftIr_shifting (idle : Idle tb) :
    Live (toShiftIr design tb) ∧ (toShiftIr design tb).tap.controller = .shiftIr ∧
      (toShiftIr design tb).pins.tms = false ∧
      (toShiftIr design tb).tap.path = design.irCapture := by
  refine ⟨(((idle.live.writeTms true).writeTms true).writeTms false).writeTms false, ?_⟩
  rw [toShiftIr_eq idle]
  exact ⟨rfl, rfl, rfl⟩

theorem toShiftIr_shifted (idle : Idle tb) {last : Nat}
    (length : design.irCapture.length = last + 1) (wdata : BitVec 64) :
    Shifted (toShiftIr design tb) wdata true
      (writeBits design wdata (last + 1) true (toShiftIr design tb)) := by
  obtain ⟨live, shifting, waiting, path⟩ := toShiftIr_shifting design idle
  have full : (toShiftIr design tb).tap.path.length = last + 1 := by rw [path, length]
  obtain ⟨live, controller, path, kept⟩ :=
    shiftLoop design (.inr shifting) live waiting wdata full true
  exact ⟨live.setTms false, controller, path, kept.trans ⟨rfl, rfl, rfl, rfl⟩⟩

theorem setIr_loaded (idle : Idle tb) (five : design.irCapture.length = 5) (opcode : BitVec 32)
    (other : opcode &&& 0b11111 ≠ tb.jtagIr.setWidth 32 &&& 0b11111) :
    Loaded tb opcode (setIr design opcode tb) := by
  have shifted : Shifted (toShiftIr design tb) (opcode.setWidth 64) true
      (writeBits design (opcode.setWidth 64) 5 true (toShiftIr design tb)) :=
    toShiftIr_shifted idle (show _ = 4 + 1 from five) _
  have runs : setIr design opcode tb =
      { writeTms design false (writeTms design true
          (writeBits design (opcode.setWidth 64) 5 true (toShiftIr design tb))) with
        jtagIr := opcode.setWidth 8 } := if_neg other
  rw [runs]
  generalize writeBits design (opcode.setWidth 64) 5 true (toShiftIr design tb) = middle
    at shifted ⊢
  obtain ⟨live, controller, path, kept⟩ := shifted
  rw [toShiftIr_eq idle] at controller path kept
  rw [updateIr_eq live controller]
  refine ⟨⟨⟨live.trstN, live.tck, live.high⟩, rfl, rfl⟩, ?_, kept.captures, kept.updates, rfl⟩
  change middle.tap.path = _
  rw [path]
  change (List.range design.irCapture.length).map _ = _
  rw [five, bits_setWidth opcode (by decide)]

end Instruction

/-- The instruction is in the register if it is in the cache; after a reset the cache matches no
instruction that is used. -/
structure Ready (tb : Testbench) : Prop where
  idle : Idle tb
  cached : tb.jtagIr = 0xFF ∨ ∃ opcode, (opcode = dmiAccess ∨ opcode = dtmCsr) ∧
    tb.jtagIr = opcode.setWidth 8 ∧ tb.tap.instr = bits (opcode.setWidth 5)

/-- `set_ir` skips the walk only where the register has the instruction already. -/
theorem setIr_ready {design : Design} {tb : Testbench} (ready : Ready tb)
    (five : design.irCapture.length = 5) {opcode : BitVec 32}
    (known : opcode = dmiAccess ∨ opcode = dtmCsr) : Loaded tb opcode (setIr design opcode tb) := by
  by_cases hit : opcode &&& 0b11111 = tb.jtagIr.setWidth 32 &&& 0b11111
  · have skips : setIr design opcode tb = tb := if_pos hit
    rw [skips]
    rcases ready.cached with reset | ⟨current, used, cache, instr⟩
    · rw [reset] at hit
      rcases known with rfl | rfl <;> exact absurd hit (by decide)
    · have same : current = opcode := by
        rw [cache] at hit
        revert hit
        rcases known with rfl | rfl <;> rcases used with rfl | rfl <;> decide
      rw [same] at cache instr
      exact ⟨ready.idle, instr, rfl, rfl, cache⟩
  · exact setIr_loaded ready.idle five opcode hit

/-! The calls, each from a ready driver -/

section Calls

variable {design : Design} {tb : Testbench}

theorem softreset_ready (live : Live tb)
    (stable : tb.tap.controller = .testLogicReset ∨ tb.tap.controller = .runTestIdle) :
    Ready (jtagSoftreset design tb) ∧
      (jtagSoftreset design tb).tap.captures = tb.tap.captures ∧
      (jtagSoftreset design tb).tap.updates = tb.tap.updates := by
  obtain ⟨ticked, still⟩ := jtagTick_iterate design ((live.setTms true).setTdi false) 6
  have walked : jtagSoftreset design tb =
      { (tb.setTdi false).setTms false with
        tap := { tb.tap with controller := .runTestIdle, instr := design.resetInstr }
        jtagIr := 0xFF } := by
    change { jtagTick design (((jtagTick design)^[6] ((tb.setTms true).setTdi false)).setTms
      false) with jtagIr := 0xFF } = _
    rw [jtagTick_eq (still.setTms false), ticked]
    exact congrArg (fun tap => { (tb.setTdi false).setTms false with tap, jtagIr := 0xFF })
      (cycles_reset tb.tap stable live.high false)
  rw [walked]
  exact ⟨⟨⟨⟨live.trstN, live.tck, live.high⟩, rfl, rfl⟩, .inl rfl⟩, rfl, rfl⟩

variable (design) in
theorem jtagReset_live (start : Testbench) :
    Live (jtagReset design start) ∧ (jtagReset design start).tap.controller = .testLogicReset := by
  let held := ((start.setTms true).setTdi false).setTrstN false
  let released : Testbench :=
    { pins := ⟨true, true, false, true⟩
      tap := { start.tap with
        controller := .testLogicReset
        instr := design.resetInstr
        tck := true }
      jtagIr := 0xFF }
  have ticked : jtagTick design (jtagTick design held) =
      { held.setTck true with tap := released.tap } := by
    rw [jtagTick_reset rfl, jtagTick_reset rfl]
    rfl
  have runs : jtagReset design start = jtagTick design released := by
    change jtagTick design { (jtagTick design (jtagTick design held)).setTrstN true with
      jtagIr := 0xFF } = _
    rw [ticked]
    rfl
  rw [runs, jtagTick_eq ⟨rfl, rfl, rfl⟩]
  exact ⟨⟨rfl, rfl, rfl⟩, rfl⟩

theorem resetMaster_ready (start : Testbench) : Ready (jtagResetMaster design start) := by
  obtain ⟨live, stable⟩ := jtagReset_live design start
  exact (softreset_ready live (.inl stable)).1

theorem waitIdle_eq (idle : Idle tb) (waitCycles : BitVec 32) :
    waitIdle design waitCycles tb = tb := by
  refine Function.iterate_fixed ?_ _
  rw [jtagTick_eq idle.live, idle.tms, cycle_idle tb.tap idle.controller idle.live.high]

theorem Scanned.ready {middle after : Testbench} {size : Nat} {wdata : BitVec 64}
    {opcode : BitVec 32} (known : opcode = dmiAccess ∨ opcode = dtmCsr)
    (loaded : Loaded tb opcode middle) (scanned : Scanned design middle size wdata after) :
    Ready after :=
  ⟨scanned.idle, .inr ⟨opcode, known, scanned.jtagIr.trans loaded.jtagIr,
    scanned.instr.trans loaded.instr⟩⟩

-- what the driver counts on: the lengths of the registers that it shifts through
structure DebugPort (design : Design) : Prop where
  instr : design.irCapture.length = 5
  dmi : design.drLength (bits (dmiAccess.setWidth 5)) = 40 + 1
  dtmcs : design.drLength (bits (dtmCsr.setWidth 5)) = 31 + 1

theorem debugTap_port (resetInstr irCapture : BitVec 5) (others : List Bool → Nat)
    (drCapture : Nat → Nat → Bool) :
    DebugPort (debugTap resetInstr irCapture others drCapture) where
  instr := by simp [debugTap, bits]
  dmi := by
    change (if bits 0x11#5 = bits 0x11#5 then 41 else if bits 0x11#5 = bits 0x10#5 then 32
      else others (bits 0x11#5)) = 41
    exact if_pos rfl
  dtmcs := by
    change (if bits 0x10#5 = bits 0x11#5 then 41 else if bits 0x10#5 = bits 0x10#5 then 32
      else others (bits 0x10#5)) = 32
    rw [if_neg (by decide), if_pos rfl]

theorem dmiWord (addr : BitVec 7) (data : BitVec 32) (op : BitVec 2) :
    (List.range 41).map (0#64 ||| op.setWidth 64 <<< 0 ||| data.setWidth 64 <<< 2 |||
      (addr.setWidth 8).setWidth 64 <<< 34).getLsbD = bits (addr ++ data ++ op) := by
  refine List.map_congr_left fun bit member => ?_
  have below := List.mem_range.mp member
  simp only [BitVec.getLsbD_or, BitVec.getLsbD_shiftLeft, BitVec.getLsbD_setWidth,
    BitVec.getLsbD_append]
  have short : bit < 64 := by omega
  by_cases low : bit < 2
  · have early : bit < 34 := by omega
    simp [low, short, early]
  · have noOp := BitVec.getLsbD_of_ge op bit (by omega)
    by_cases middle : bit < 34
    · have inData : bit - 2 < 32 := by omega
      have place : bit - 2 < 64 := by omega
      simp [low, short, middle, noOp, inData, place]
    · have noData := BitVec.getLsbD_of_ge data (bit - 2) (by omega)
      have pastData : ¬bit - 2 < 32 := by omega
      have place : bit - 34 < 64 := by omega
      have inAddr : bit - 34 < 8 := by omega
      have index : bit - 2 - 32 = bit - 34 := by omega
      simp [low, short, middle, noOp, noData, pastData, place, inAddr, index]

def readCommand (addr : BitVec 7) (op : BitVec 64) : BitVec 64 :=
  0#64 ||| op <<< 0 ||| (addr.setWidth 8).setWidth 64 <<< 34

theorem readCommand_bits (addr : BitVec 7) (op : BitVec 2) :
    (List.range 41).map (readCommand addr (op.setWidth 64)).getLsbD =
      bits (addr ++ 0#32 ++ op) := by
  rw [← dmiWord]
  simp [readCommand]

section Port

variable (port : DebugPort design) (ready : Ready tb)

include port ready

theorem jtagWriteDmi_ready (addr : BitVec 7) (data : BitVec 32) :
    Ready (jtagWriteDmi design (addr.setWidth 8) data tb) ∧
      (jtagWriteDmi design (addr.setWidth 8) data tb).tap.updates =
        tb.tap.updates ++ [(bits 0x11#5, bits (addr ++ data ++ 0b10#2))] := by
  have loaded := setIr_ready ready port.instr (.inl rfl)
  have length : design.drLength (setIr design dmiAccess tb).tap.instr = 40 + 1 := by
    rw [loaded.instr, port.dmi]
  have scanned := write_scanned loaded.idle length (0#64 ||| dtmWrite <<< 0 |||
    data.setWidth 64 <<< 2 ||| (addr.setWidth 8).setWidth 64 <<< 34)
  refine ⟨scanned.ready (.inl rfl) loaded, scanned.updates.trans ?_⟩
  rw [loaded.updates, loaded.instr, ← dmiWord]
  rfl

theorem writeDtmcs_ready (data : BitVec 32) :
    Ready (writeDtmcs design data tb) ∧
      (writeDtmcs design data tb).tap.updates =
        tb.tap.updates ++ [(bits 0x10#5, bits data)] := by
  have loaded := setIr_ready ready port.instr (.inr rfl)
  have length : design.drLength (setIr design dtmCsr tb).tap.instr = 31 + 1 := by
    rw [loaded.instr, port.dtmcs]
  have scanned := write_scanned loaded.idle length (data.setWidth 64)
  refine ⟨scanned.ready (.inr rfl) loaded, scanned.updates.trans ?_⟩
  rw [loaded.updates, loaded.instr, bits_setWidth data (by decide), BitVec.setWidth_eq]
  rfl

/-- The second scan of a read shifts out what its capture has found. -/
structure Read (before after : Testbench) (addr : BitVec 7) (dataOut : BitVec 64) : Prop where
  ready : Ready after
  updates : after.tap.updates = before.tap.updates ++
    [(bits 0x11#5, bits (addr ++ 0#32 ++ 0b01#2)), (bits 0x11#5, bits (addr ++ 0#32 ++ 0b00#2))]
  captured : ∃ first second, after.tap.captures = before.tap.captures ++ [first, second] ∧
    second.length = 41 ∧ ∀ bit, dataOut.getLsbD bit = (decide (bit < 41) && second.getD bit false)

theorem jtagReadDmi_ready (addr : BitVec 7) (waitCycles : BitVec 32) :
    Read tb (jtagReadDmi design (addr.setWidth 8) waitCycles tb).2 addr
      (jtagReadDmi design (addr.setWidth 8) waitCycles tb).1 := by
  have loaded := setIr_ready ready port.instr (.inl rfl)
  have length : design.drLength (setIr design dmiAccess tb).tap.instr = 40 + 1 := by
    rw [loaded.instr, port.dmi]
  have asked := write_scanned loaded.idle length (readCommand addr dtmRead)
  have runs : jtagReadDmi design (addr.setWidth 8) waitCycles tb =
      readScan design (readCommand addr dtmNop) (40 + 1) (waitIdle design waitCycles
        (writeScan design (readCommand addr dtmRead) (40 + 1) (setIr design dmiAccess tb))) := rfl
  rw [runs, waitIdle_eq asked.idle]
  generalize writeScan design (readCommand addr dtmRead) (40 + 1) (setIr design dmiAccess tb) =
    middle at asked ⊢
  have still : design.drLength middle.tap.instr = 40 + 1 := by rw [asked.instr, length]
  obtain ⟨answered, dataOut⟩ := readwrite_scanned asked.idle still (readCommand addr dtmNop)
    (by decide)
  have captures := answered.captures
  rw [asked.captures, loaded.captures, List.append_assoc] at captures
  refine ⟨⟨answered.idle, .inr ⟨dmiAccess, .inl rfl, ?_, ?_⟩⟩, ?_, _, _, captures, ?_, dataOut⟩
  · rw [answered.jtagIr, asked.jtagIr, loaded.jtagIr]
  · rw [answered.instr, asked.instr, loaded.instr]
  · rw [answered.updates, asked.updates, asked.instr, loaded.instr, loaded.updates,
      List.append_assoc, ← readCommand_bits, ← readCommand_bits]
    rfl
  · rw [captured_length, still]

end Port

end Calls

inductive Call
  | writeDmi (addr : BitVec 7) (data : BitVec 32)
  | readDmi (addr : BitVec 7) (waitCycles : BitVec 32)
  | writeDtmcs (data : BitVec 32)
  | waitIdle (waitCycles : BitVec 32)
  | softreset
deriving DecidableEq, Repr

def Call.run (design : Design) (tb : Testbench) : Call → Testbench
  | .writeDmi addr data => jtagWriteDmi design (addr.setWidth 8) data tb
  | .readDmi addr waitCycles => (jtagReadDmi design (addr.setWidth 8) waitCycles tb).2
  | .writeDtmcs data => JtagDriver.writeDtmcs design data tb
  | .waitIdle waitCycles => JtagDriver.waitIdle design waitCycles tb
  | .softreset => jtagSoftreset design tb

/-- The updates of data registers that a call is to cause, each with its instruction. -/
def Call.updates : Call → List (List Bool × List Bool)
  | .writeDmi addr data => [(bits 0x11#5, bits (addr ++ data ++ 0b10#2))]
  | .readDmi addr _ =>
    [(bits 0x11#5, bits (addr ++ 0#32 ++ 0b01#2)), (bits 0x11#5, bits (addr ++ 0#32 ++ 0b00#2))]
  | .writeDtmcs data => [(bits 0x10#5, bits data)]
  | .waitIdle _ | .softreset => []

/-- A read returns what the second of its captures has found. -/
def Call.Returns (design : Design) (before after : Testbench) : Call → Prop
  | .readDmi addr waitCycles =>
    ∃ first second, after.tap.captures = before.tap.captures ++ [first, second] ∧
      second.length = 41 ∧ ∀ bit,
        (jtagReadDmi design (addr.setWidth 8) waitCycles before).1.getLsbD bit =
          (decide (bit < 41) && second.getD bit false)
  | _ => True

section Runs

variable {design : Design} (port : DebugPort design)

include port

theorem run_ready {tb : Testbench} (ready : Ready tb) (call : Call) :
    Ready (call.run design tb) ∧
      (call.run design tb).tap.updates = tb.tap.updates ++ call.updates ∧
      call.Returns design tb (call.run design tb) := by
  cases call with
  | writeDmi addr data =>
      obtain ⟨ready, updates⟩ := jtagWriteDmi_ready port ready addr data
      exact ⟨ready, updates, trivial⟩
  | readDmi addr waitCycles =>
      obtain ⟨ready, updates, captured⟩ := jtagReadDmi_ready port ready addr waitCycles
      exact ⟨ready, updates, captured⟩
  | writeDtmcs data =>
      obtain ⟨ready, updates⟩ := writeDtmcs_ready port ready data
      exact ⟨ready, updates, trivial⟩
  | waitIdle waitCycles =>
      rw [Call.run, waitIdle_eq ready.idle, Call.updates, List.append_nil]
      exact ⟨ready, rfl, trivial⟩
  | softreset =>
      obtain ⟨reset, _, updates⟩ := softreset_ready ready.idle.live (.inr ready.idle.controller)
      exact ⟨reset, updates.trans (List.append_nil _).symm, trivial⟩

theorem runs_ready (start : Testbench) (calls : List Call) :
    Ready (calls.foldl (Call.run design) (jtagResetMaster design start)) := by
  induction calls using List.reverseRecOn with
  | nil => exact resetMaster_ready start
  | append_singleton calls call ih =>
      rw [List.foldl_append]
      exact (run_ready port ih call).1

end Runs

/-- After the reset of the driver every call, at whatever place in a sequence, leaves the port in
Run-Test/Idle and causes just its own updates, and a read returns what the port has captured. -/
theorem calls_drive_tap (resetInstr irCapture : BitVec 5) (others : List Bool → Nat)
    (drCapture : Nat → Nat → Bool) (start : Testbench) (calls : List Call) (call : Call) :
    let design := debugTap resetInstr irCapture others drCapture
    let before := calls.foldl (Call.run design) (jtagResetMaster design start)
    let after := call.run design before
    before.tap.controller = .runTestIdle ∧ after.tap.controller = .runTestIdle ∧
      after.tap.updates = before.tap.updates ++ call.updates ∧
      call.Returns design before after := by
  intro design before after
  have port := debugTap_port resetInstr irCapture others drCapture
  have ready : Ready before := runs_ready port start calls
  obtain ⟨still, updates, returns⟩ := run_ready port ready call
  exact ⟨ready.idle.controller, still.idle.controller, updates, returns⟩

end Atalanta.JtagDriver
