import Atalanta.Bsp.Mmio
import Atalanta.Clic.RegTop

/-! The CLIC driver `clic.rs` with its registers `intattr.rs`, `intie.rs`, `intctl.rs` and
`intip.rs`, all of which work on the one word of the interrupt. -/

namespace Atalanta.Clic

open BitField Bsp

/-- The accessor `Reg<u32, RW>` of riscv_peripheral: what it takes from the word it has read,
and the word it writes back. -/
structure Reg where
  readBit : BitVec 32 → Nat → Bool
  readBits : BitVec 32 → Nat → Nat → BitVec 32
  setBit : BitVec 32 → Nat → BitVec 32
  clearBit : BitVec 32 → Nat → BitVec 32
  writeBits : BitVec 32 → Nat → Nat → BitVec 32 → BitVec 32

structure Reg.Documented (reg : Reg) : Prop where
  readBit : ∀ word bit, bit < 32 → reg.readBit word bit = word.getLsbD bit
  readBits : ∀ word first last, first ≤ last → last < 32 →
    reg.readBits word first last = (word.extractLsb' first (last + 1 - first)).setWidth 32
  setBit : ∀ word bit, bit < 32 → ∀ other, other < 32 →
    (reg.setBit word bit).getLsbD other = if other = bit then true else word.getLsbD other
  clearBit : ∀ word bit, bit < 32 → ∀ other, other < 32 →
    (reg.clearBit word bit).getLsbD other = if other = bit then false else word.getLsbD other
  writeBits : ∀ word first last value, first ≤ last → last < 32 → ∀ bit, bit < 32 →
    (reg.writeBits word first last value).getLsbD bit =
      if first ≤ bit ∧ bit ≤ last then value.getLsbD (bit - first) else word.getLsbD bit

section Reg

variable {reg : Reg} (documented : reg.Documented) (word : BitVec 32)

include documented

theorem Reg.Documented.setBit_eq {bit : Nat} (inside : bit < 32) :
    reg.setBit word bit = putField word bit 1#1 := by
  apply BitVec.eq_of_getLsbD_eq
  intro other within
  rw [documented.setBit word bit inside other within]
  exact (getLsbD_putBit word bit true other within).symm

theorem Reg.Documented.clearBit_eq {bit : Nat} (inside : bit < 32) :
    reg.clearBit word bit = putField word bit 0#1 := by
  apply BitVec.eq_of_getLsbD_eq
  intro other within
  rw [documented.clearBit word bit inside other within]
  exact (getLsbD_putBit word bit false other within).symm

theorem Reg.Documented.writeBits_eq {first last : Nat} (value : BitVec 32) (order : first ≤ last)
    (inside : last < 32) :
    reg.writeBits word first last value =
      putField word first (value.setWidth (last + 1 - first)) := by
  apply BitVec.eq_of_getLsbD_eq
  intro bit within
  rw [documented.writeBits word first last value order inside bit within,
    getLsbD_putRange word value order bit within]

end Reg

def wordReg : Reg where
  readBit word bit := word.getLsbD bit
  readBits word first last := (word.extractLsb' first (last + 1 - first)).setWidth 32
  setBit word bit := putField word bit 1#1
  clearBit word bit := putField word bit 0#1
  writeBits word first last value := putField word first (value.setWidth (last + 1 - first))

theorem wordReg_documented : wordReg.Documented where
  readBit _ _ _ := rfl
  readBits _ _ _ _ _ := rfl
  setBit word bit _ other within := getLsbD_putBit word bit true other within
  clearBit word bit _ other within := getLsbD_putBit word bit false other within
  writeBits word _ _ value order _ bit within := getLsbD_putRange word value order bit within

def query {τ : Type} (ptr : BitVec 32) (result : BitVec 32 → τ) : Driver τ := do
  let word ← readU32 ptr
  return result word

def modify (ptr : BitVec 32) (change : BitVec 32 → BitVec 32) : Driver Unit := do
  let word ← readU32 ptr
  writeU32 ptr (change word)

inductive Mode
  | machine
  | supervisor
  | user
deriving DecidableEq, Repr

inductive Trig
  | level
  | edge
deriving DecidableEq, Repr

inductive Polarity
  | pos
  | neg
deriving DecidableEq, Repr

def Mode.repr : Mode → BitVec 32
  | .machine => 0b11
  | .supervisor => 0b01
  | .user => 0b00

def Trig.repr : Trig → BitVec 1
  | .level => 0b0
  | .edge => 0b1

def Polarity.repr : Polarity → BitVec 1
  | .pos => 0b0
  | .neg => 0b1

namespace INTATTR

def intattrOffset : Nat := 0x2

variable (reg : Reg) (ptr : BitVec 32)

-- `none` is the arm that the source calls unreachable
def mode : Driver (Option Mode) :=
  query ptr fun word =>
    match reg.readBits word (6 + 8 * intattrOffset) (7 + 8 * intattrOffset) with
    | 0b00#32 => some .user
    | 0b01#32 => some .supervisor
    | 0b11#32 => some .machine
    | _ => none

def setMode (mode : Mode) : Driver Unit :=
  modify ptr fun word =>
    reg.writeBits word (6 + 8 * intattrOffset) (7 + 8 * intattrOffset) mode.repr

def trig : Driver Trig :=
  query ptr fun word =>
    match reg.readBit word (1 + 8 * intattrOffset) with
    | false => .level
    | true => .edge

def setTrig (trig : Trig) : Driver Unit :=
  match trig with
  | .level => modify ptr fun word => reg.clearBit word (1 + 8 * intattrOffset)
  | .edge => modify ptr fun word => reg.setBit word (1 + 8 * intattrOffset)

def polarity : Driver Polarity :=
  query ptr fun word =>
    match reg.readBit word (2 + 8 * intattrOffset) with
    | false => .pos
    | true => .neg

def setPolarity (polarity : Polarity) : Driver Unit :=
  match polarity with
  | .pos => modify ptr fun word => reg.clearBit word (2 + 8 * intattrOffset)
  | .neg => modify ptr fun word => reg.setBit word (2 + 8 * intattrOffset)

def shv : Driver Bool := query ptr fun word => reg.readBit word (0 + 8 * intattrOffset)

def setShv (shv : Bool) : Driver Unit :=
  if shv then modify ptr fun word => reg.setBit word (8 * intattrOffset)
  else modify ptr fun word => reg.clearBit word (8 * intattrOffset)

end INTATTR

namespace INTIE

def intieOffset : Nat := 0x1

variable (reg : Reg) (ptr : BitVec 32)

def isEnabled : Driver Bool := query ptr fun word => reg.readBit word (0 + 8 * intieOffset)

def enable : Driver Unit := modify ptr fun word => reg.setBit word (0 + 8 * intieOffset)

def disable : Driver Unit := modify ptr fun word => reg.clearBit word (0 + 8 * intieOffset)

def setPcs (pcs : Bool) : Driver Unit :=
  if pcs then modify ptr fun word => reg.setBit word (4 + 8 * intieOffset)
  else modify ptr fun word => reg.clearBit word (4 + 8 * intieOffset)

end INTIE

namespace INTCTL

def intctlOffset : Nat := 0x3

variable (reg : Reg) (ptr : BitVec 32)

def level : Driver (BitVec 8) :=
  query ptr fun word =>
    (reg.readBits word (8 * intctlOffset) (7 + 8 * intctlOffset)).setWidth 8

def setLevel (level : BitVec 8) : Driver Unit :=
  modify ptr fun word =>
    reg.writeBits word (8 * intctlOffset) (7 + 8 * intctlOffset) (level.setWidth 32)

end INTCTL

namespace INTIP

def intipOffset : Nat := 0x0

variable (reg : Reg) (ptr : BitVec 32)

def isPending : Driver Bool := query ptr fun word => reg.readBit word (0 + 8 * intipOffset)

def pend : Driver Unit := modify ptr fun word => reg.setBit word (0 + 8 * intipOffset)

def unpend : Driver Unit := modify ptr fun word => reg.clearBit word (0 + 8 * intipOffset)

end INTIP

def clicBaseAddr : BitVec 32 := 0x50000
def intOffset : BitVec 32 := 0x1000
def intSeparation : BitVec 32 := 0x4

/-- The pointer that `Clic::ip`, `Clic::ie`, `Clic::attr` and `Clic::ctl` all compute. -/
def intAddr (number : BitVec 16) : BitVec 32 :=
  clicBaseAddr + intOffset + number.setWidth 32 * intSeparation

theorem intAddr_toNat (number : BitVec 16) :
    (intAddr number).toNat = 0x51000 + 4 * number.toNat := by
  have small := number.isLt
  have word : (number.setWidth 32).toNat = number.toNat := by
    rw [BitVec.toNat_setWidth, Nat.mod_eq_of_lt (by omega)]
  have separation : intSeparation.toNat = 4 := by decide
  have base : (clicBaseAddr + intOffset).toNat = 0x51000 := by decide
  rw [intAddr, BitVec.toNat_add, BitVec.toNat_mul, word, separation, base]
  omega

theorem intAddr_injective {number other : BitVec 16} (same : intAddr number = intAddr other) :
    number = other := by
  have addresses := congrArg BitVec.toNat same
  rw [intAddr_toNat, intAddr_toNat] at addresses
  exact BitVec.eq_of_toNat_eq (by omega)

inductive Call
  | setMode (mode : Mode)
  | setTrig (trig : Trig)
  | setPolarity (polarity : Polarity)
  | setShv (shv : Bool)
  | setLevel (level : BitVec 8)
  | setPcs (pcs : Bool)
  | enable
  | disable
  | pend
  | unpend
deriving DecidableEq, Repr

def Call.run (reg : Reg) (number : BitVec 16) : Call → Driver Unit
  | .setMode mode => INTATTR.setMode reg (intAddr number) mode
  | .setTrig trig => INTATTR.setTrig reg (intAddr number) trig
  | .setPolarity polarity => INTATTR.setPolarity reg (intAddr number) polarity
  | .setShv shv => INTATTR.setShv reg (intAddr number) shv
  | .setLevel level => INTCTL.setLevel reg (intAddr number) level
  | .setPcs pcs => INTIE.setPcs reg (intAddr number) pcs
  | .enable => INTIE.enable reg (intAddr number)
  | .disable => INTIE.disable reg (intAddr number)
  | .pend => INTIP.pend reg (intAddr number)
  | .unpend => INTIP.unpend reg (intAddr number)

def Call.field : Call → Field
  | .setMode _ => .mode
  | .setTrig _ => .trig
  | .setPolarity _ => .polarity
  | .setShv _ => .shv
  | .setLevel _ => .level
  | .setPcs _ => .pcs
  | .enable | .disable => .ie
  | .pend | .unpend => .ip

def Call.bits : (call : Call) → BitVec call.field.length
  | .setMode mode => mode.repr.setWidth 2
  | .setTrig trig => trig.repr
  | .setPolarity polarity => polarity.repr
  | .setShv shv => BitVec.ofBool shv
  | .setLevel level => level
  | .setPcs pcs => BitVec.ofBool pcs
  | .enable | .pend => 1#1
  | .disable | .unpend => 0#1

def Call.change (call : Call) (word : BitVec 32) : BitVec 32 :=
  putField word call.field.lo call.bits

theorem modify_setBit {reg : Reg} (documented : reg.Documented) (ptr : BitVec 32) {bit : Nat}
    (inside : bit < 32) :
    (modify ptr fun word => reg.setBit word bit) = modify ptr fun word => putField word bit 1#1 :=
  congrArg (modify ptr) (funext fun word => documented.setBit_eq word inside)

theorem modify_clearBit {reg : Reg} (documented : reg.Documented) (ptr : BitVec 32) {bit : Nat}
    (inside : bit < 32) :
    (modify ptr fun word => reg.clearBit word bit) = modify ptr fun word => putField word bit 0#1 :=
  congrArg (modify ptr) (funext fun word => documented.clearBit_eq word inside)

/-- Every setter is one read and one write of the whole word, with its own field changed. -/
theorem Call.run_eq {reg : Reg} (documented : reg.Documented) (number : BitVec 16) (call : Call) :
    call.run reg number = modify (intAddr number) call.change := by
  cases call with
  | setMode mode =>
      exact congrArg (modify _) (funext fun word =>
        documented.writeBits_eq word mode.repr (by decide) (by decide))
  | setLevel level =>
      refine congrArg (modify _) (funext fun word => ?_)
      rw [documented.writeBits_eq word _ (by decide) (by decide)]
      exact congrArg (putField word 24) (BitVec.setWidth_setWidth_of_le level (by decide))
  | setTrig trig =>
      cases trig with
      | level => exact modify_clearBit documented _ (by decide)
      | edge => exact modify_setBit documented _ (by decide)
  | setPolarity polarity =>
      cases polarity with
      | pos => exact modify_clearBit documented _ (by decide)
      | neg => exact modify_setBit documented _ (by decide)
  | setShv shv =>
      cases shv with
      | false => exact modify_clearBit documented _ (by decide)
      | true => exact modify_setBit documented _ (by decide)
  | setPcs pcs =>
      cases pcs with
      | false => exact modify_clearBit documented _ (by decide)
      | true => exact modify_setBit documented _ (by decide)
  | enable => exact modify_setBit documented _ (by decide)
  | disable => exact modify_clearBit documented _ (by decide)
  | pend => exact modify_setBit documented _ (by decide)
  | unpend => exact modify_clearBit documented _ (by decide)

def callAll (reg : Reg) : List (BitVec 16 × Call) → Driver Unit
  | [] => return ()
  | (number, call) :: calls => do
      call.run reg number
      callAll reg calls

end Atalanta.Clic
