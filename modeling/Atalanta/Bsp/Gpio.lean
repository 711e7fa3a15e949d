import Atalanta.Bsp.Mmio
import Atalanta.Library.Device
import Atalanta.Library.Noninterference
import Mathlib.Logic.Function.Basic

/-! The GPIO driver `gpio.rs`, whose calls all go to the pads of the first block. -/

namespace Atalanta.Bsp

open BusProgram Noninterference

def gpioBase : BitVec 32 := 0x30000

def gpioLoBase : BitVec 32 := gpioBase
def gpioHiBase : BitVec 32 := gpioBase + 0x38

-- the words of a pad block, in the order of its fields
abbrev PadRegisterBlock := Fin 14 → BitVec 32

def padDir : Fin 14 := 0
def padEn : Fin 14 := 1
def padDataOut : Fin 14 := 3

def padAddr (base : BitVec 32) (register : Fin 14) : BitVec 32 :=
  base + BitVec.ofNat 32 (4 * register)

-- no method of the source uses the BASE_ADDR of its type
namespace GpioHal

def en (_baseAddr mask : BitVec 32) : Driver Unit := maskU32 (padAddr gpioBase padEn) mask

def setOutput (_baseAddr mask : BitVec 32) : Driver Unit := maskU32 (padAddr gpioBase padDir) mask

def setInput (_baseAddr mask : BitVec 32) : Driver Unit := unmaskU32 (padAddr gpioBase padDir) mask

def setHigh (_baseAddr mask : BitVec 32) : Driver Unit :=
  maskU32 (padAddr gpioBase padDataOut) mask

def setLow (_baseAddr mask : BitVec 32) : Driver Unit :=
  unmaskU32 (padAddr gpioBase padDataOut) mask

def toggle (_baseAddr mask : BitVec 32) : Driver Unit :=
  toggleU32 (padAddr gpioBase padDataOut) mask

end GpioHal

inductive GpioBank
  | lo
  | hi
deriving DecidableEq, Repr

def GpioBank.base : GpioBank → BitVec 32
  | .lo => gpioLoBase
  | .hi => gpioHiBase

inductive GpioOp
  | en
  | setOutput
  | setInput
  | setHigh
  | setLow
  | toggle
deriving DecidableEq, Repr

structure GpioCall where
  bank : GpioBank
  op : GpioOp
  mask : BitVec 32
deriving DecidableEq, Repr

def GpioCall.driver (call : GpioCall) : Driver Unit :=
  match call.op with
  | .en => GpioHal.en call.bank.base call.mask
  | .setOutput => GpioHal.setOutput call.bank.base call.mask
  | .setInput => GpioHal.setInput call.bank.base call.mask
  | .setHigh => GpioHal.setHigh call.bank.base call.mask
  | .setLow => GpioHal.setLow call.bank.base call.mask
  | .toggle => GpioHal.toggle call.bank.base call.mask

abbrev GpioRegisters := BitVec 32 → BitVec 32

def gpioDevice : Device GpioRegisters (BitVec 32) (BitVec 32) where
  read registers addr := (registers addr, registers)
  write registers addr data := Function.update registers addr data

def GpioCall.step (registers : GpioRegisters) (call : GpioCall) : GpioRegisters :=
  (call.driver.exec gpioDevice registers).2

def padBlock (bank : GpioBank) (registers : GpioRegisters) : PadRegisterBlock :=
  fun register => registers (padAddr bank.base register)

/-! What a call is to do to the block of its own pins -/

def GpioOp.register : GpioOp → Fin 14
  | .en => padEn
  | .setOutput | .setInput => padDir
  | .setHigh | .setLow | .toggle => padDataOut

def GpioOp.update (op : GpioOp) (mask word : BitVec 32) : BitVec 32 :=
  match op with
  | .en | .setOutput | .setHigh => word ||| mask
  | .setInput | .setLow => word &&& ~~~mask
  | .toggle => word ^^^ mask

def GpioCall.onBlock (block : PadRegisterBlock) (call : GpioCall) : PadRegisterBlock :=
  Function.update block call.op.register
    (call.op.update call.mask (block call.op.register))

def GpioCall.Idle (call : GpioCall) (block : PadRegisterBlock) : Prop :=
  match call.op with
  | .en | .setOutput | .setHigh => call.mask &&& ~~~(block call.op.register) = 0
  | .setInput | .setLow => call.mask &&& block call.op.register = 0
  | .toggle => call.mask = 0

theorem or_kept (word mask : BitVec 32) : word ||| mask = word ↔ mask &&& ~~~word = 0 := by
  simp only [BitVec.eq_of_getLsbD_eq_iff, BitVec.getLsbD_or, BitVec.getLsbD_and,
    BitVec.getLsbD_not]
  refine forall₂_congr fun bit within => ?_
  cases word.getLsbD bit <;> cases mask.getLsbD bit <;> simp [within]

theorem and_not_kept (word mask : BitVec 32) : word &&& ~~~mask = word ↔ mask &&& word = 0 := by
  simp only [BitVec.eq_of_getLsbD_eq_iff, BitVec.getLsbD_and, BitVec.getLsbD_not]
  refine forall₂_congr fun bit within => ?_
  cases word.getLsbD bit <;> cases mask.getLsbD bit <;> simp [within]

theorem xor_kept (word mask : BitVec 32) : word ^^^ mask = word ↔ mask = 0 := by
  simp only [BitVec.eq_of_getLsbD_eq_iff, BitVec.getLsbD_xor]
  refine forall₂_congr fun bit within => ?_
  cases word.getLsbD bit <;> cases mask.getLsbD bit <;> simp

theorem onBlock_kept_iff (call : GpioCall) (block : PadRegisterBlock) :
    call.onBlock block = block ↔ call.Idle block := by
  rw [GpioCall.onBlock, Function.update_eq_self_iff]
  obtain ⟨bank, op, mask⟩ := call
  cases op with
  | en | setOutput | setHigh => exact or_kept _ mask
  | setInput | setLow => exact and_not_kept _ mask
  | toggle => exact xor_kept _ mask

/-! What it does -/

theorem step_eq (call : GpioCall) (registers : GpioRegisters) :
    call.step registers = Function.update registers (padAddr gpioBase call.op.register)
      (call.op.update call.mask (registers (padAddr gpioBase call.op.register))) := by
  obtain ⟨bank, op, mask⟩ := call
  cases op <;> rfl

theorem padAddr_inj (base : BitVec 32) : Function.Injective (padAddr base) := by
  intro first second same
  have offsets := (BitVec.add_right_inj base).mp same
  clear same
  revert first second
  decide

theorem blocks_apart (low high : Fin 14) : padAddr gpioHiBase high ≠ padAddr gpioBase low := by
  revert low high
  decide

theorem step_lo (call : GpioCall) (registers : GpioRegisters) :
    padBlock .lo (call.step registers) = call.onBlock (padBlock .lo registers) := by
  rw [step_eq]
  exact Function.update_comp_eq_of_injective registers (padAddr_inj gpioBase) _ _

theorem step_hi (call : GpioCall) (registers : GpioRegisters) :
    padBlock .hi (call.step registers) = padBlock .hi registers := by
  rw [step_eq]
  exact Function.update_comp_eq_of_forall_ne registers _ fun high => blocks_apart _ high

def GpioCall.of (bank : GpioBank) (call : GpioCall) : Bool := call.bank = bank

theorem follows_bank (bank : GpioBank) (start : GpioRegisters) (calls : List GpioCall) :
    (∀ seen, seen <+: calls →
      Follows GpioCall.step (padBlock bank) GpioCall.onBlock (GpioCall.of bank) start seen) ↔
    ∀ seen call, seen ++ [call] <+: calls → call.bank = .hi →
      call.Idle (padBlock bank (seen.foldl GpioCall.step start)) := by
  rw [follows_iff]
  refine forall₃_congr fun seen call within => ?_
  rw [Respects]
  cases bank with
  | lo =>
      rw [step_lo]
      cases owner : call.bank with
      | lo => simp [GpioCall.of, owner]
      | hi => simp [GpioCall.of, owner, onBlock_kept_iff]
  | hi =>
      rw [step_hi]
      cases owner : call.bank with
      | lo => simp [GpioCall.of, owner]
      | hi => simp [GpioCall.of, owner, ← onBlock_kept_iff, eq_comm]

theorem hi_unchanged (start : GpioRegisters) (calls : List GpioCall) :
    padBlock .hi (calls.foldl GpioCall.step start) = padBlock .hi start := by
  induction calls generalizing start with
  | nil => rfl
  | cons call calls ih => exact (ih _).trans (step_hi call start)

/-- Each block ends up as the calls of its own type alone leave it. -/
def Independent (start : GpioRegisters) (calls : List GpioCall) : Prop :=
  ∀ bank, padBlock bank (calls.foldl GpioCall.step start) =
    padBlock bank ((calls.filter (GpioCall.of bank)).foldl GpioCall.step start)

/-- Each block ends up as the calls of its own type are to leave it. -/
def ActsOnOwnBlock (start : GpioRegisters) (calls : List GpioCall) : Prop :=
  ∀ bank, padBlock bank (calls.foldl GpioCall.step start) =
    (calls.filter (GpioCall.of bank)).foldl GpioCall.onBlock (padBlock bank start)

/-- No call of `GpioHi` finds anything to change in the block. -/
def HiIdle (bank : GpioBank) (start : GpioRegisters) (calls : List GpioCall) : Prop :=
  ∀ seen call, seen ++ [call] <+: calls → call.bank = .hi →
    call.Idle (padBlock bank (seen.foldl GpioCall.step start))

theorem independent_follows (start : GpioRegisters) (calls : List GpioCall) :
    Independent start calls ↔
      Follows GpioCall.step (padBlock .lo) GpioCall.onBlock (GpioCall.of .lo) start calls := by
  have alone : padBlock .lo ((calls.filter (GpioCall.of .lo)).foldl GpioCall.step start) =
      (calls.filter (GpioCall.of .lo)).foldl GpioCall.onBlock (padBlock .lo start) :=
    view_visible (fun state call _ => step_lo call state) start calls
  refine ⟨fun independent => (independent .lo).trans alone, fun follows bank => ?_⟩
  cases bank with
  | lo => exact follows.trans alone.symm
  | hi => exact (hi_unchanged start _).trans (hi_unchanged start _).symm

/-- Exactly while no call of `GpioHi` finds anything to change in the block of `GpioLo`, the
blocks are independent; only if there is nothing to change in its own block either, it is as if
such calls went there. -/
theorem independent_iff (start : GpioRegisters) (calls : List GpioCall) :
    ((∀ seen, seen <+: calls → Independent start seen) ↔ HiIdle .lo start calls) ∧
      ((∀ seen, seen <+: calls → ActsOnOwnBlock start seen) ↔
        HiIdle .lo start calls ∧ HiIdle .hi start calls) := by
  constructor
  · simp only [independent_follows]
    exact follows_bank .lo start calls
  · rw [HiIdle, HiIdle, ← follows_bank, ← follows_bank]
    constructor
    · intro acts
      exact ⟨fun seen within => acts seen within .lo, fun seen within => acts seen within .hi⟩
    · rintro ⟨low, high⟩ seen within bank
      cases bank with
      | lo => exact low seen within
      | hi => exact high seen within

/-- Setting a pin of `GpioHi` drives the pin of `GpioLo` with the same number. -/
theorem set_high_hi_drives_lo :
    let start : GpioRegisters := fun _ => 0
    let calls : List GpioCall := [⟨.hi, .setHigh, 1⟩]
    padBlock .lo (calls.foldl GpioCall.step start) padDataOut = 1 ∧
      padBlock .hi (calls.foldl GpioCall.step start) padDataOut = 0 ∧
      ¬Independent start calls ∧ ¬ActsOnOwnBlock start calls := by
  refine ⟨by decide, by decide, fun independent => ?_, fun acts => ?_⟩
  · have driven := congrFun (independent .lo) padDataOut
    revert driven
    decide
  · have driven := congrFun (acts .lo) padDataOut
    revert driven
    decide

end Atalanta.Bsp
