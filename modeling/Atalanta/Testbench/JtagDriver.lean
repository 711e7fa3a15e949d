import Atalanta.Library.Tap
import Mathlib.Data.BitVec

/-! The JTAG driver of `Testbench.h`, on the pins of a test access port. -/

namespace Atalanta.JtagDriver

open Tap

structure Testbench where
  pins : Pins
  tap : Tap.State
  jtagIr : BitVec 8

namespace Testbench

variable (tb : Testbench) (level : Bool)

def setTck : Testbench := { tb with pins.tck := level }
def setTms : Testbench := { tb with pins.tms := level }
def setTdi : Testbench := { tb with pins.tdi := level }
def setTrstN : Testbench := { tb with pins.trstN := level }

end Testbench

def jtagClkPer : Nat := 1

def dmiWidth : Nat := 41
def dmiAccess : BitVec 32 := 0b10001
def dtmCsr : BitVec 32 := 0b10000
def dtmNop : BitVec 64 := 0b00
def dtmRead : BitVec 64 := 0b01
def dtmWrite : BitVec 64 := 0b10

section Driver

variable (design : Design)

def tick (tb : Testbench) : Testbench := { tb with tap := tb.tap.settle design tb.pins }

-- the clock rises at the end, while the inputs are stable
def jtagTickOf (halfPer : Nat) (tb : Testbench) : Testbench :=
  (List.range (halfPer * 2)).foldl (fun tb i =>
    tick design (tb.setTck (decide (i < halfPer - 1) || decide (i = halfPer * 2 - 1)))) tb

def jtagTick (tb : Testbench) : Testbench := jtagTickOf design jtagClkPer tb

def jtagReset (tb : Testbench) : Testbench :=
  let tb := ((tb.setTms true).setTdi false).setTrstN false
  let tb := jtagTick design (jtagTick design tb)
  let tb := { tb.setTrstN true with jtagIr := 0xFF }
  jtagTick design tb

def jtagSoftreset (tb : Testbench) : Testbench :=
  let tb := (tb.setTms true).setTdi false
  let tb := (jtagTick design)^[6] tb
  let tb := jtagTick design (tb.setTms false)
  { tb with jtagIr := 0xFF }

def jtagResetMaster (tb : Testbench) : Testbench := jtagSoftreset design (jtagReset design tb)

def writeTms (val : Bool) (tb : Testbench) : Testbench :=
  jtagTick design (tb.setTms val)

def shiftBit (wdata : BitVec 64) (size : Nat) (tmsLast : Bool) (tb : Testbench) (i : Nat) :
    Testbench :=
  let tb := tb.setTdi (wdata.getLsbD i)
  let tb := if i = size - 1 then tb.setTms tmsLast else tb
  jtagTick design tb

def writeBits (wdata : BitVec 64) (size : Nat) (tmsLast : Bool) (tb : Testbench) : Testbench :=
  let tb := (List.range size).foldl (shiftBit design wdata size tmsLast) tb
  tb.setTms false

def readwriteBit (wdata : BitVec 64) (size : Nat) (tmsLast : Bool)
    (read : BitVec 64 × Testbench) (i : Nat) : BitVec 64 × Testbench :=
  let tb := shiftBit design wdata size tmsLast read.2 i
  (read.1 ||| ((BitVec.ofBool tb.tap.tdo).setWidth 64 <<< i &&& 1#64 <<< i), tb)

-- unlike `writeBits` this leaves TMS as the last bit had it
def readwriteBits (wdata : BitVec 64) (size : Nat) (tmsLast : Bool) (tb : Testbench) :
    BitVec 64 × Testbench :=
  (List.range size).foldl (readwriteBit design wdata size tmsLast) (0, tb)

def setIr (opcode : BitVec 32) (tb : Testbench) : Testbench :=
  if opcode &&& 0b11111 = tb.jtagIr.setWidth 32 &&& 0b11111 then tb
  else
    let tb := writeTms design true tb
    let tb := writeTms design true tb
    let tb := writeTms design false tb
    let tb := writeTms design false tb
    let tb := writeBits design (opcode.setWidth 64) 5 true tb
    let tb := writeTms design true tb
    let tb := writeTms design false tb
    { tb with jtagIr := opcode.setWidth 8 }

def shiftDr (tb : Testbench) : Testbench :=
  let tb := writeTms design true tb
  let tb := writeTms design false tb
  writeTms design false tb

def updateDr (exit1Dr : Bool) (tb : Testbench) : Testbench :=
  let tb := if exit1Dr then writeTms design true tb else tb
  let tb := writeTms design true tb
  writeTms design false tb

def jtagWriteDmi (csrAddr : BitVec 8) (data : BitVec 32) (tb : Testbench) : Testbench :=
  let writeData := 0#64 ||| dtmWrite <<< 0 ||| data.setWidth 64 <<< 2 ||| csrAddr.setWidth 64 <<< 34
  let tb := setIr design dmiAccess tb
  let tb := shiftDr design tb
  let tb := writeBits design writeData dmiWidth true tb
  updateDr design false tb

def waitIdle (waitCycles : BitVec 32) (tb : Testbench) : Testbench :=
  (jtagTick design)^[waitCycles.toNat] tb

def writeDtmcs (data : BitVec 32) (tb : Testbench) : Testbench :=
  let tb := setIr design dtmCsr tb
  let tb := shiftDr design tb
  let tb := writeBits design (data.setWidth 64) 32 true tb
  updateDr design false tb

def jtagReadDmi (addr : BitVec 8) (waitCycles : BitVec 32) (tb : Testbench) :
    BitVec 64 × Testbench :=
  let writeData := 0#64 ||| dtmRead <<< 0 ||| addr.setWidth 64 <<< 34
  let tb := setIr design dmiAccess tb
  let tb := shiftDr design tb
  let tb := writeBits design writeData dmiWidth true tb
  let tb := updateDr design false tb
  let tb := waitIdle design waitCycles tb
  let tb := shiftDr design tb
  let writeData := 0#64 ||| dtmNop <<< 0 ||| addr.setWidth 64 <<< 34
  let (dataOut, tb) := readwriteBits design writeData dmiWidth true tb
  (dataOut, updateDr design false tb)

end Driver

/-- The port is clocked by the driver, whose pins are as each call expects to find them. -/
structure Live (tb : Testbench) : Prop where
  trstN : tb.pins.trstN = true
  tck : tb.pins.tck = true
  high : tb.tap.tck = true

section Ticks

variable (design : Design)

theorem jtagTickOf_prefix {halfPer count : Nat} (below : count < halfPer * 2) {tb : Testbench}
    (live : Live tb) :
    (List.range count).foldl (fun tb i =>
        tick design (tb.setTck (decide (i < halfPer - 1) || decide (i = halfPer * 2 - 1)))) tb =
      { tb.setTck (decide (count < halfPer)) with
        tap := if count < halfPer then tb.tap else tb.tap.fall design } := by
  obtain ⟨trstN, tck, high⟩ := live
  induction count with
  | zero =>
      have runs : 0 < halfPer := by omega
      simp only [List.range_zero, List.foldl_nil, Testbench.setTck, runs, decide_true, if_true,
        ← tck]
  | succ count ih =>
      have notLast : count ≠ halfPer * 2 - 1 := by omega
      rw [List.range_succ, List.foldl_append, ih (by omega)]
      simp only [List.foldl_cons, List.foldl_nil, tick, Testbench.setTck, notLast, decide_false,
        Bool.or_false, Tap.State.settle, trstN, if_true]
      by_cases early : count + 1 < halfPer
      · have before : count < halfPer := by omega
        have stillHigh : count < halfPer - 1 := by omega
        simp [early, before, stillHigh, high]
      · have low : ¬count < halfPer - 1 := by omega
        by_cases middle : count < halfPer
        · simp [early, middle, low, high]
        · simp [early, middle, low, Tap.State.fall]

variable {design}

theorem jtagTickOf_eq {halfPer : Nat} (runs : 0 < halfPer) {tb : Testbench} (live : Live tb) :
    jtagTickOf design halfPer tb =
      { tb with tap := tb.tap.cycle design tb.pins.tms tb.pins.tdi } := by
  obtain ⟨last, rounds⟩ : ∃ last, halfPer * 2 = last + 1 := ⟨halfPer * 2 - 1, by omega⟩
  have low := jtagTickOf_prefix design (by omega : last < halfPer * 2) live
  have fell : ¬last < halfPer := by omega
  obtain ⟨⟨tck, tms, tdi, trstN⟩, tap, jtagIr⟩ := tb
  obtain ⟨rfl, rfl, high⟩ := live
  have fallen : (tap.fall design).tck = false := rfl
  unfold jtagTickOf
  rw [rounds] at low ⊢
  rw [List.range_succ, List.foldl_append, low]
  simp [tick, Testbench.setTck, Tap.State.settle, Tap.State.cycle, fallen, fell]

theorem jtagTick_eq {tb : Testbench} (live : Live tb) :
    jtagTick design tb = { tb with tap := tb.tap.cycle design tb.pins.tms tb.pins.tdi } :=
  jtagTickOf_eq (by decide) live

variable (design) in
theorem jtagTick_iterate {tb : Testbench} (live : Live tb) (count : Nat) :
    (jtagTick design)^[count] tb =
      { tb with
        tap := (fun tap => tap.cycle design tb.pins.tms tb.pins.tdi)^[count] tb.tap } ∧
      Live ((jtagTick design)^[count] tb) := by
  induction count with
  | zero => exact ⟨rfl, live⟩
  | succ count ih =>
      obtain ⟨ticked, still⟩ := ih
      rw [Function.iterate_succ_apply', jtagTick_eq still, Function.iterate_succ_apply']
      refine ⟨?_, still.trstN, still.tck, rfl⟩
      rw [ticked]

-- the port follows its reset without a clock
theorem jtagTick_reset {tb : Testbench} (reset : tb.pins.trstN = false) :
    jtagTick design tb =
      { tb.setTck true with
        tap := { tb.tap with
          controller := .testLogicReset
          instr := design.resetInstr
          tck := true } } := by
  obtain ⟨⟨tck, tms, tdi, trstN⟩, tap, jtagIr⟩ := tb
  obtain rfl : trstN = _ := reset
  rfl

end Ticks

end Atalanta.JtagDriver
