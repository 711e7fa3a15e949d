import Atalanta.Testbench.JtagDriver

/-! What the calls of the JTAG driver do to the port: the walks of the controller, composed of the
bit loops and the fixed sequences of TMS. -/

namespace Atalanta.JtagDriver

open Tap

variable {design : Design} {tb : Testbench}

theorem Live.setTms (live : Live tb) (level : Bool) : Live (tb.setTms level) :=
  ⟨live.trstN, live.tck, live.high⟩

theorem Live.setTdi (live : Live tb) (level : Bool) : Live (tb.setTdi level) :=
  ⟨live.trstN, live.tck, live.high⟩

theorem Live.jtagTick (live : Live tb) : Live (jtagTick design tb) := by
  rw [jtagTick_eq live]
  exact ⟨live.trstN, live.tck, rfl⟩

theorem Live.writeTms (live : Live tb) (val : Bool) : Live (writeTms design val tb) :=
  (live.setTms val).jtagTick

theorem writeTms_eq (live : Live tb) (val : Bool) :
    writeTms design val tb =
      { tb.setTms val with tap := tb.tap.cycle design val tb.pins.tdi } :=
  jtagTick_eq (live.setTms val)

theorem shiftDr_eq (live : Live tb) (idle : tb.tap.controller = .runTestIdle) :
    shiftDr design tb =
      { tb.setTms false with
        tap := { tb.tap with
          controller := .shiftDr
          path := tb.tap.captured design
          captures := tb.tap.captures ++ [tb.tap.captured design] } } := by
  have first : Live (writeTms design true tb) := live.writeTms true
  unfold shiftDr
  rw [writeTms_eq (first.writeTms false), writeTms_eq first, writeTms_eq live]
  exact congrArg (fun tap => { tb.setTms false with tap })
    (cycles_toShiftDr tb.tap idle live.high _ _ _)

theorem updateDr_eq (live : Live tb) (exited : tb.tap.controller = .exit1Dr) :
    updateDr design false tb =
      { tb.setTms false with
        tap := { tb.tap with
          controller := .runTestIdle
          updates := tb.tap.updates ++ [(tb.tap.instr, tb.tap.path)] } } := by
  unfold updateDr
  rw [if_neg (by decide), writeTms_eq (live.writeTms true), writeTms_eq live]
  exact congrArg (fun tap => { tb.setTms false with tap })
    (cycles_updateDr tb.tap exited live.high _ _)

/-! The bit loops -/

theorem next_shifting {controller : Controller}
    (shifting : controller = .shiftDr ∨ controller = .shiftIr) :
    controller.next false = controller := by
  rcases shifting with rfl | rfl <;> rfl

theorem shiftBit_eq (live : Live tb)
    (shifting : tb.tap.controller = .shiftDr ∨ tb.tap.controller = .shiftIr)
    (wdata : BitVec 64) (size : Nat) (tmsLast : Bool) (i : Nat) :
    shiftBit design wdata size tmsLast tb i =
      let tms := if i = size - 1 then tmsLast else tb.pins.tms
      { (tb.setTdi (wdata.getLsbD i)).setTms tms with
        tap := { tb.tap with
          controller := tb.tap.controller.next tms
          path := tb.tap.path.tail ++ [wdata.getLsbD i]
          tdo := tb.tap.path.headD false } } := by
  have live := live.setTdi (wdata.getLsbD i)
  unfold shiftBit
  by_cases last : i = size - 1
  · simp only [last, if_true]
    rw [← last, jtagTick_eq (live.setTms tmsLast)]
    exact congrArg (fun tap => { (tb.setTdi (wdata.getLsbD i)).setTms tmsLast with tap })
      (cycle_shift tb.tap shifting live.high _ _)
  · simp only [last, if_false]
    rw [jtagTick_eq live]
    exact congrArg (fun tap => { tb.setTdi (wdata.getLsbD i) with tap })
      (cycle_shift tb.tap shifting live.high _ _)

-- the driver and the port agree on everything that a scan does not touch
structure Kept (before after : Testbench) : Prop where
  jtagIr : after.jtagIr = before.jtagIr
  instr : after.tap.instr = before.tap.instr
  captures : after.tap.captures = before.tap.captures
  updates : after.tap.updates = before.tap.updates

theorem Kept.trans {before middle after : Testbench} (early : Kept before middle)
    (late : Kept middle after) : Kept before after :=
  ⟨late.jtagIr.trans early.jtagIr, late.instr.trans early.instr,
    late.captures.trans early.captures, late.updates.trans early.updates⟩

structure Shifting (before : Testbench) (wdata : BitVec 64) (count : Nat) (after : Testbench) :
    Prop where
  live : Live after
  tms : after.pins.tms = false
  controller : after.tap.controller = before.tap.controller
  path : after.tap.path = shiftedIn before.tap.path wdata.getLsbD count
  kept : Kept before after

structure Shifted (before : Testbench) (wdata : BitVec 64) (tmsLast : Bool) (after : Testbench) :
    Prop where
  live : Live after
  controller : after.tap.controller = before.tap.controller.next tmsLast
  path : after.tap.path = (List.range before.tap.path.length).map wdata.getLsbD
  kept : Kept before after

section Loop

variable (design) (shifting : tb.tap.controller = .shiftDr ∨ tb.tap.controller = .shiftIr)
  {wdata : BitVec 64} {middle : Testbench} {count : Nat}

include shifting

theorem shiftBit_tdo (shifted : Shifting tb wdata count middle)
    (inside : count < tb.tap.path.length) (size : Nat) (tmsLast : Bool) :
    (shiftBit design wdata size tmsLast middle count).tap.tdo = tb.tap.path[count] := by
  rw [← shifted.controller] at shifting
  rw [shiftBit_eq shifted.live shifting]
  exact (congrArg (·.headD false) shifted.path).trans (shiftedIn_head _ inside)

theorem shiftBit_shifting (shifted : Shifting tb wdata count middle) {size : Nat}
    (inside : count + 1 < size) (long : size ≤ tb.tap.path.length) (tmsLast : Bool) :
    Shifting tb wdata (count + 1) (shiftBit design wdata size tmsLast middle count) := by
  obtain ⟨live, tms, controller, path, kept⟩ := shifted
  have state := shifting
  rw [← controller] at state
  rw [shiftBit_eq live state, if_neg (by omega : count ≠ size - 1), tms]
  refine ⟨⟨live.trstN, live.tck, live.high⟩, rfl, ?_, ?_, kept.trans ⟨rfl, rfl, rfl, rfl⟩⟩
  · exact (next_shifting state).trans controller
  · change middle.tap.path.tail ++ [wdata.getLsbD count] = _
    rw [path]
    exact shiftedIn_succ _ (by omega)

theorem shiftBit_last (shifted : Shifting tb wdata count middle)
    (last : count + 1 = tb.tap.path.length) (tmsLast : Bool) :
    Shifted tb wdata tmsLast (shiftBit design wdata (count + 1) tmsLast middle count) := by
  obtain ⟨live, tms, controller, path, kept⟩ := shifted
  have state := shifting
  rw [← controller] at state
  rw [shiftBit_eq live state, if_pos (by omega : count = count + 1 - 1)]
  refine ⟨⟨live.trstN, live.tck, live.high⟩, ?_, ?_, kept.trans ⟨rfl, rfl, rfl, rfl⟩⟩
  · exact congrArg (·.next tmsLast) controller
  · change middle.tap.path.tail ++ [wdata.getLsbD count] = _
    rw [path, shiftedIn_succ _ (by omega), last]
    exact shiftedIn_full _ rfl

theorem shiftLoop_prefix (live : Live tb) (waiting : tb.pins.tms = false) (wdata : BitVec 64)
    {size : Nat} (full : tb.tap.path.length = size) (tmsLast : Bool) {count : Nat}
    (inside : count < size) :
    Shifting tb wdata count
      ((List.range count).foldl (shiftBit design wdata size tmsLast) tb) := by
  induction count with
  | zero => exact ⟨live, waiting, rfl, (shiftedIn_zero _).symm, rfl, rfl, rfl, rfl⟩
  | succ count ih =>
      rw [List.range_succ, List.foldl_append]
      exact shiftBit_shifting design shifting (ih (by omega)) inside (by omega) tmsLast

theorem shiftLoop (live : Live tb) (waiting : tb.pins.tms = false) (wdata : BitVec 64)
    {last : Nat} (full : tb.tap.path.length = last + 1) (tmsLast : Bool) :
    Shifted tb wdata tmsLast
      ((List.range (last + 1)).foldl (shiftBit design wdata (last + 1) tmsLast) tb) := by
  have before := shiftLoop_prefix design shifting live waiting wdata full tmsLast
    (by omega : last < last + 1)
  rw [List.range_succ, List.foldl_append]
  exact shiftBit_last design shifting before full.symm tmsLast

omit shifting in
theorem readBit (res : BitVec 64) (tdo : Bool) {count : Nat} (inside : count < 64) (bit : Nat) :
    (res ||| ((BitVec.ofBool tdo).setWidth 64 <<< count &&& 1#64 <<< count)).getLsbD bit =
      (res.getLsbD bit || (decide (bit = count) && tdo)) := by
  rw [BitVec.getLsbD_or, BitVec.getLsbD_and, BitVec.getLsbD_shiftLeft, BitVec.getLsbD_shiftLeft,
    BitVec.getLsbD_setWidth, BitVec.getLsbD_ofBool, BitVec.getLsbD_one]
  by_cases same : bit = count
  · simp [same, inside]
  · by_cases above : bit < count
    · simp [same, above]
    · simp [same, show bit - count ≠ 0 by omega]

/-- The loop that also reads does the same to the port, and has read what it has shifted out. -/
theorem readLoop (live : Live tb) (waiting : tb.pins.tms = false) (wdata : BitVec 64)
    {size : Nat} (full : tb.tap.path.length = size) (narrow : size ≤ 64) (tmsLast : Bool)
    {count : Nat} (inside : count ≤ size) :
    let read := (List.range count).foldl (readwriteBit design wdata size tmsLast) (0, tb)
    read.2 = (List.range count).foldl (shiftBit design wdata size tmsLast) tb ∧
      ∀ bit, read.1.getLsbD bit = (decide (bit < count) && tb.tap.path.getD bit false) := by
  induction count with
  | zero => exact ⟨rfl, fun bit => by simp⟩
  | succ count ih =>
      have earlier := ih (by omega)
      have before := shiftLoop_prefix design shifting live waiting wdata full tmsLast
        (by omega : count < size)
      have tdo := shiftBit_tdo design shifting before (by omega) size tmsLast
      rw [List.range_succ, List.foldl_append, List.foldl_append]
      generalize (List.range count).foldl (readwriteBit design wdata size tmsLast) (0, tb) = read
        at earlier
      obtain ⟨res, middle⟩ := read
      obtain ⟨rfl, bits⟩ := earlier
      refine ⟨rfl, fun bit => (readBit res _ (by omega) bit).trans ?_⟩
      rw [bits, tdo]
      by_cases same : bit = count
      · simp [same, show count < tb.tap.path.length by omega]
      · simp [same, show bit < count + 1 ↔ bit < count by omega]

end Loop

/-! The scans -/

def bits {w : Nat} (word : BitVec w) : List Bool := (List.range w).map word.getLsbD

/-- Between calls: in Run-Test/Idle, with TMS low. -/
structure Idle (tb : Testbench) : Prop where
  live : Live tb
  tms : tb.pins.tms = false
  controller : tb.tap.controller = .runTestIdle

/-- One capture and one update of the data register of the instruction. -/
structure Scanned (design : Design) (before : Testbench) (size : Nat) (wdata : BitVec 64)
    (after : Testbench) : Prop where
  idle : Idle after
  jtagIr : after.jtagIr = before.jtagIr
  instr : after.tap.instr = before.tap.instr
  captures : after.tap.captures = before.tap.captures ++ [before.tap.captured design]
  updates : after.tap.updates =
    before.tap.updates ++ [(before.tap.instr, (List.range size).map wdata.getLsbD)]

theorem captured_length (state : Tap.State) :
    (state.captured design).length = design.drLength state.instr := by
  simp [Tap.State.captured]

theorem shiftDr_live (idle : Idle tb) : Live (shiftDr design tb) :=
  ((idle.live.writeTms true).writeTms false).writeTms false

variable (design) in
theorem shiftDr_shifting (idle : Idle tb) :
    (shiftDr design tb).tap.controller = .shiftDr ∧ (shiftDr design tb).pins.tms = false ∧
      (shiftDr design tb).tap.path = tb.tap.captured design := by
  rw [shiftDr_eq idle.live idle.controller]
  exact ⟨rfl, rfl, rfl⟩

def writeScan (design : Design) (wdata : BitVec 64) (size : Nat) (tb : Testbench) : Testbench :=
  updateDr design false (writeBits design wdata size true (shiftDr design tb))

def readScan (design : Design) (wdata : BitVec 64) (size : Nat) (tb : Testbench) :
    BitVec 64 × Testbench :=
  let (dataOut, tb) := readwriteBits design wdata size true (shiftDr design tb)
  (dataOut, updateDr design false tb)

section Scan

variable (idle : Idle tb) {last : Nat} (length : design.drLength tb.tap.instr = last + 1)
  {wdata : BitVec 64}

include idle length

theorem updateDr_scanned {middle : Testbench}
    (shifted : Shifted (shiftDr design tb) wdata true middle) :
    Scanned design tb (last + 1) wdata (updateDr design false middle) := by
  obtain ⟨live, controller, path, kept⟩ := shifted
  rw [shiftDr_eq idle.live idle.controller] at controller path kept
  rw [updateDr_eq live controller]
  refine ⟨⟨⟨live.trstN, live.tck, live.high⟩, rfl, rfl⟩, kept.jtagIr, kept.instr, kept.captures,
    ?_⟩
  change middle.tap.updates ++ [(middle.tap.instr, middle.tap.path)] = _
  rw [kept.updates, kept.instr, path, captured_length, length]

theorem shiftDr_shifted (wdata : BitVec 64) :
    Shifted (shiftDr design tb) wdata true
      ((List.range (last + 1)).foldl (shiftBit design wdata (last + 1) true)
        (shiftDr design tb)) := by
  obtain ⟨shifting, waiting, path⟩ := shiftDr_shifting design idle
  have full : (shiftDr design tb).tap.path.length = last + 1 := by
    rw [path, captured_length, length]
  exact shiftLoop design (.inl shifting) (shiftDr_live idle) waiting wdata full true

theorem write_scanned (wdata : BitVec 64) :
    Scanned design tb (last + 1) wdata (writeScan design wdata (last + 1) tb) := by
  obtain ⟨live, controller, path, kept⟩ := shiftDr_shifted idle length wdata
  exact updateDr_scanned idle length
    ⟨live.setTms false, controller, path, kept.trans ⟨rfl, rfl, rfl, rfl⟩⟩

theorem readwrite_scanned (wdata : BitVec 64) (narrow : last < 64) :
    Scanned design tb (last + 1) wdata (readScan design wdata (last + 1) tb).2 ∧
      ∀ bit, (readScan design wdata (last + 1) tb).1.getLsbD bit =
        (decide (bit < last + 1) && (tb.tap.captured design).getD bit false) := by
  obtain ⟨shifting, waiting, path⟩ := shiftDr_shifting design idle
  have full : (shiftDr design tb).tap.path.length = last + 1 := by
    rw [path, captured_length, length]
  obtain ⟨same, bits⟩ := readLoop design (.inl shifting) (shiftDr_live idle) waiting wdata full
    narrow true (Nat.le_refl (last + 1))
  rw [path] at bits
  refine ⟨?_, bits⟩
  change Scanned design tb (last + 1) wdata (updateDr design false
    (readwriteBits design wdata (last + 1) true (shiftDr design tb)).2)
  rw [readwriteBits, same]
  exact updateDr_scanned idle length (shiftDr_shifted idle length wdata)

end Scan

end Atalanta.JtagDriver
