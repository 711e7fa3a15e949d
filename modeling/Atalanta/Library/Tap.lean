import Mathlib.Data.List.Basic
import Mathlib.Logic.Function.Iterate

/-! A test access port with the sixteen-state controller of IEEE 1149.1. State, captures and shifts
change on a rising edge of the test clock, its output, updates and the instruction on a falling
one. -/

namespace Tap

inductive Controller
  | testLogicReset
  | runTestIdle
  | selectDrScan
  | captureDr
  | shiftDr
  | exit1Dr
  | pauseDr
  | exit2Dr
  | updateDr
  | selectIrScan
  | captureIr
  | shiftIr
  | exit1Ir
  | pauseIr
  | exit2Ir
  | updateIr
deriving DecidableEq, Repr

def Controller.next : Controller → (tms : Bool) → Controller
  | .testLogicReset, true => .testLogicReset
  | .testLogicReset, false => .runTestIdle
  | .runTestIdle, true => .selectDrScan
  | .runTestIdle, false => .runTestIdle
  | .selectDrScan, true => .selectIrScan
  | .selectDrScan, false => .captureDr
  | .captureDr, true => .exit1Dr
  | .captureDr, false => .shiftDr
  | .shiftDr, true => .exit1Dr
  | .shiftDr, false => .shiftDr
  | .exit1Dr, true => .updateDr
  | .exit1Dr, false => .pauseDr
  | .pauseDr, true => .exit2Dr
  | .pauseDr, false => .pauseDr
  | .exit2Dr, true => .updateDr
  | .exit2Dr, false => .shiftDr
  | .updateDr, true => .selectDrScan
  | .updateDr, false => .runTestIdle
  | .selectIrScan, true => .testLogicReset
  | .selectIrScan, false => .captureIr
  | .captureIr, true => .exit1Ir
  | .captureIr, false => .shiftIr
  | .shiftIr, true => .exit1Ir
  | .shiftIr, false => .shiftIr
  | .exit1Ir, true => .updateIr
  | .exit1Ir, false => .pauseIr
  | .pauseIr, true => .exit2Ir
  | .pauseIr, false => .pauseIr
  | .exit2Ir, true => .updateIr
  | .exit2Ir, false => .shiftIr
  | .updateIr, true => .selectDrScan
  | .updateIr, false => .runTestIdle

/-- Register contents are lists of bits, the one next to the output first. `drCapture` says what
each capture of a data register finds. -/
structure Design where
  resetInstr : List Bool
  irCapture : List Bool
  drLength : (instr : List Bool) → Nat
  drCapture : (capture bit : Nat) → Bool

-- every path from one scan to another goes through a capture, so one shift register does for all
structure State where
  controller : Controller
  instr : List Bool
  path : List Bool
  tdo : Bool
  tck : Bool
  captures : List (List Bool)
  updates : List (List Bool × List Bool)
deriving DecidableEq, Repr

structure Pins where
  tck : Bool
  tms : Bool
  tdi : Bool
  trstN : Bool
deriving DecidableEq, Repr

section Edges

variable (design : Design)

def State.captured (state : State) : List Bool :=
  (List.range (design.drLength state.instr)).map (design.drCapture state.captures.length)

def State.rise (state : State) (tms tdi : Bool) : State :=
  let clocked := match state.controller with
    | .captureDr =>
      { state with
        path := state.captured design
        captures := state.captures ++ [state.captured design] }
    | .captureIr => { state with path := design.irCapture }
    | .shiftDr | .shiftIr => { state with path := state.path.tail ++ [tdi] }
    | _ => state
  { clocked with controller := state.controller.next tms, tck := true }

def State.fall (state : State) : State :=
  let clocked := match state.controller with
    | .testLogicReset => { state with instr := design.resetInstr }
    | .shiftDr | .shiftIr => { state with tdo := state.path.headD false }
    | .updateDr => { state with updates := state.updates ++ [(state.instr, state.path)] }
    | .updateIr => { state with instr := state.path }
    | _ => state
  { clocked with tck := false }

def State.settle (state : State) (pins : Pins) : State :=
  if pins.trstN then
    match state.tck, pins.tck with
    | false, true => state.rise design pins.tms pins.tdi
    | true, false => state.fall design
    | _, _ => state
  else
    { state with
      controller := .testLogicReset
      instr := design.resetInstr
      tck := pins.tck }

-- one period of the test clock, from its high level
def State.cycle (state : State) (tms tdi : Bool) : State :=
  (state.fall design).rise design tms tdi

variable {design}

@[simp] theorem cycle_tck (state : State) (tms tdi : Bool) :
    (state.cycle design tms tdi).tck = true := rfl

theorem cycle_idle (state : State) (idle : state.controller = .runTestIdle)
    (high : state.tck = true) (tdi : Bool) : state.cycle design false tdi = state := by
  obtain ⟨controller, instr, path, tdo, tck, captures, updates⟩ := state
  obtain rfl : controller = _ := idle
  obtain rfl : tck = _ := high
  rfl

theorem cycle_shift (state : State)
    (shifting : state.controller = .shiftDr ∨ state.controller = .shiftIr) (high : state.tck = true)
    (tms tdi : Bool) :
    state.cycle design tms tdi =
      { state with
        controller := state.controller.next tms
        path := state.path.tail ++ [tdi]
        tdo := state.path.headD false } := by
  obtain ⟨controller, instr, path, tdo, tck, captures, updates⟩ := state
  obtain rfl : tck = _ := high
  obtain rfl | rfl : controller = _ ∨ controller = _ := shifting
  · rfl
  · rfl

theorem cycles_toShiftDr (state : State) (idle : state.controller = .runTestIdle)
    (high : state.tck = true) (select capture shift : Bool) :
    ((state.cycle design true select).cycle design false capture).cycle design false shift =
      { state with
        controller := .shiftDr
        path := state.captured design
        captures := state.captures ++ [state.captured design] } := by
  obtain ⟨controller, instr, path, tdo, tck, captures, updates⟩ := state
  obtain rfl : controller = _ := idle
  obtain rfl : tck = _ := high
  rfl

theorem cycles_toShiftIr (state : State) (idle : state.controller = .runTestIdle)
    (high : state.tck = true) (selectDr selectIr capture shift : Bool) :
    (((state.cycle design true selectDr).cycle design true selectIr).cycle design false
        capture).cycle design false shift =
      { state with controller := .shiftIr, path := design.irCapture } := by
  obtain ⟨controller, instr, path, tdo, tck, captures, updates⟩ := state
  obtain rfl : controller = _ := idle
  obtain rfl : tck = _ := high
  rfl

theorem cycles_updateDr (state : State) (exited : state.controller = .exit1Dr)
    (high : state.tck = true) (update idle : Bool) :
    (state.cycle design true update).cycle design false idle =
      { state with
        controller := .runTestIdle
        updates := state.updates ++ [(state.instr, state.path)] } := by
  obtain ⟨controller, instr, path, tdo, tck, captures, updates⟩ := state
  obtain rfl : controller = _ := exited
  obtain rfl : tck = _ := high
  rfl

theorem cycles_updateIr (state : State) (exited : state.controller = .exit1Ir)
    (high : state.tck = true) (update idle : Bool) :
    (state.cycle design true update).cycle design false idle =
      { state with controller := .runTestIdle, instr := state.path } := by
  obtain ⟨controller, instr, path, tdo, tck, captures, updates⟩ := state
  obtain rfl : controller = _ := exited
  obtain rfl : tck = _ := high
  rfl

/-- Six periods with TMS high reset the port from either stable state, and pass no update. -/
theorem cycles_reset (state : State)
    (stable : state.controller = .testLogicReset ∨ state.controller = .runTestIdle)
    (high : state.tck = true) (tdi : Bool) :
    ((fun state => State.cycle design state true tdi)^[6] state).cycle design false tdi =
      { state with controller := .runTestIdle, instr := design.resetInstr } := by
  obtain ⟨controller, instr, path, tdo, tck, captures, updates⟩ := state
  obtain rfl : tck = _ := high
  obtain rfl | rfl : controller = _ ∨ controller = _ := stable
  · rfl
  · rfl

end Edges

/-! Shifting bits in, one a cycle -/

def shiftedIn (register : List Bool) (bits : Nat → Bool) (count : Nat) : List Bool :=
  register.drop count ++ (List.range count).map bits

variable {register : List Bool} {count : Nat}

theorem shiftedIn_zero (bits : Nat → Bool) : shiftedIn register bits 0 = register := by
  simp [shiftedIn]

theorem shiftedIn_succ (bits : Nat → Bool) (inside : count < register.length) :
    (shiftedIn register bits count).tail ++ [bits count] =
      shiftedIn register bits (count + 1) := by
  unfold shiftedIn
  rw [List.drop_eq_getElem_cons inside, List.range_succ, List.map_append, List.cons_append,
    List.tail_cons, List.append_assoc]
  rfl

theorem shiftedIn_head (bits : Nat → Bool) (inside : count < register.length) :
    (shiftedIn register bits count).headD false = register[count] := by
  unfold shiftedIn
  rw [List.drop_eq_getElem_cons inside]
  rfl

theorem shiftedIn_full (bits : Nat → Bool) (full : count = register.length) :
    shiftedIn register bits count = (List.range count).map bits := by
  rw [shiftedIn, full, List.drop_length, List.nil_append]

end Tap
