import Atalanta.Bsp.FieldWrites
import Atalanta.Clic.Registers

/-! The setters of the interrupt word in `clic.h`, and the old API of `hello_rt` that is made
after them. -/

namespace Atalanta.Clic

open BitField Bsp

/-- The fields for which `clic.h` and `mmap/clic.rs` give a mask and a bit position. -/
inductive IntregField
  | ip
  | ie
  | pcs
  | shv
  | trig
  | ctl
deriving DecidableEq, Repr

def nbits : BitVec 32 := 8

def IntregField.mask : IntregField → BitVec 32
  | .ip | .ie | .pcs | .shv => 0x1
  | .trig => 0x3
  | .ctl => 0xff

def IntregField.bit : IntregField → BitVec 32
  | .ip => 0
  | .ie => 8
  | .pcs => 12
  | .shv => 16
  | .trig => 17
  | .ctl => 24 + (8 - nbits)

def IntregField.width : IntregField → BitVec 32
  | .ip | .ie | .pcs | .shv => 1
  | .trig => 2
  | .ctl => 8

def IntregField.covers : IntregField → List Field
  | .ip => [.ip]
  | .ie => [.ie]
  | .pcs => [.pcs]
  | .shv => [.shv]
  | .trig => [.trig, .polarity]
  | .ctl => [.level]

end Atalanta.Clic

namespace Atalanta.HelloRt

open Bsp Clic

inductive ClicTrig
  | level
  | edge
deriving DecidableEq, Repr

def ClicTrig.repr : ClicTrig → BitVec 32
  | .level => 0
  | .edge => 1

section Setters

variable (overflowChecks : Bool) (id : BitVec 32)

def clicIntregOffset : Except Panic Usize :=
  (checkedMul overflowChecks 0x4 id).bind fun scaled => checkedAdd overflowChecks 0x1000 scaled

def intregAddr : Except Panic Usize :=
  (clicIntregOffset overflowChecks id).bind fun offset =>
    checkedAdd overflowChecks clicBaseAddr offset

def modifyIntreg (field : IntregField) (val : BitVec 32) : Driver (Except Panic Unit) :=
  orPanic (intregAddr overflowChecks id) fun addr =>
    modifyU32 overflowChecks addr val field.mask field.bit

def setTrig (trig : ClicTrig) : Driver (Except Panic Unit) :=
  modifyIntreg overflowChecks id .trig trig.repr

def enableInt : Driver (Except Panic Unit) := modifyIntreg overflowChecks id .ie 0x1

def disableInt : Driver (Except Panic Unit) := modifyIntreg overflowChecks id .ie 0x0

def pendInt : Driver (Except Panic Unit) := modifyIntreg overflowChecks id .ip 0x1

def setLevel (level : BitVec 32) : Driver (Except Panic Unit) :=
  modifyIntreg overflowChecks id .ctl level

def ackInt : Driver (Except Panic Unit) := modifyIntreg overflowChecks id .ip 0x0

def enableVectoring : Driver (Except Panic Unit) := modifyIntreg overflowChecks id .shv 0x1

def disableVectoring : Driver (Except Panic Unit) := modifyIntreg overflowChecks id .shv 0x0

end Setters

inductive Call
  | setTrig (trig : ClicTrig)
  | enableInt
  | disableInt
  | pendInt
  | setLevel (level : BitVec 32)
  | ackInt
  | enableVectoring
  | disableVectoring
deriving DecidableEq, Repr

def Call.run (overflowChecks : Bool) (id : BitVec 32) : Call → Driver (Except Panic Unit)
  | .setTrig trig => HelloRt.setTrig overflowChecks id trig
  | .enableInt => HelloRt.enableInt overflowChecks id
  | .disableInt => HelloRt.disableInt overflowChecks id
  | .pendInt => HelloRt.pendInt overflowChecks id
  | .setLevel level => HelloRt.setLevel overflowChecks id level
  | .ackInt => HelloRt.ackInt overflowChecks id
  | .enableVectoring => HelloRt.enableVectoring overflowChecks id
  | .disableVectoring => HelloRt.disableVectoring overflowChecks id

def Call.field : Call → IntregField
  | .setTrig _ => .trig
  | .enableInt | .disableInt => .ie
  | .pendInt | .ackInt => .ip
  | .setLevel _ => .ctl
  | .enableVectoring | .disableVectoring => .shv

def Call.val : Call → BitVec 32
  | .setTrig trig => trig.repr
  | .setLevel level => level
  | .enableInt | .pendInt | .enableVectoring => 1
  | .disableInt | .ackInt | .disableVectoring => 0

theorem Call.run_eq (overflowChecks : Bool) (id : BitVec 32) (call : Call) :
    call.run overflowChecks id = modifyIntreg overflowChecks id call.field call.val := by
  cases call <;> rfl

end Atalanta.HelloRt

namespace Atalanta.SmokeTests

open Bsp Clic

def intregAddr (id : BitVec 32) : BitVec 32 := clicBaseAddr + (0x1000 + 0x04 * id)

def writeIntreg (id : BitVec 32) (field : IntregField) (val : BitVec 32) : Driver (Option Unit) :=
  writeWord (intregAddr id) val field.mask field.bit

section Setters

variable (id : BitVec 32)

def enableInt : Driver (Option Unit) := writeIntreg id .ie 0x1

def disableInt : Driver (Option Unit) := writeIntreg id .ie 0x0

def enablePcs : Driver (Option Unit) := writeIntreg id .pcs 0x1

def disablePcs : Driver (Option Unit) := writeIntreg id .pcs 0x0

def pendInt : Driver (Option Unit) := writeIntreg id .ip 0x1

def ackInt : Driver (Option Unit) := writeIntreg id .ip 0x0

def setPriority (prio : BitVec 32) : Driver (Option Unit) := writeIntreg id .ctl prio

-- the enumeration of the triggers is an integer type
def setTrig (trig : BitVec 32) : Driver (Option Unit) := writeIntreg id .trig trig

def enableVectoring : Driver (Option Unit) := writeIntreg id .shv 0x1

def disableVectoring : Driver (Option Unit) := writeIntreg id .shv 0x0

end Setters

inductive Call
  | enableInt
  | disableInt
  | enablePcs
  | disablePcs
  | pendInt
  | ackInt
  | setPriority (prio : BitVec 32)
  | setTrig (trig : BitVec 32)
  | enableVectoring
  | disableVectoring
deriving DecidableEq, Repr

def Call.run (id : BitVec 32) : Call → Driver (Option Unit)
  | .enableInt => SmokeTests.enableInt id
  | .disableInt => SmokeTests.disableInt id
  | .enablePcs => SmokeTests.enablePcs id
  | .disablePcs => SmokeTests.disablePcs id
  | .pendInt => SmokeTests.pendInt id
  | .ackInt => SmokeTests.ackInt id
  | .setPriority prio => SmokeTests.setPriority id prio
  | .setTrig trig => SmokeTests.setTrig id trig
  | .enableVectoring => SmokeTests.enableVectoring id
  | .disableVectoring => SmokeTests.disableVectoring id

def Call.field : Call → IntregField
  | .enableInt | .disableInt => .ie
  | .enablePcs | .disablePcs => .pcs
  | .pendInt | .ackInt => .ip
  | .setPriority _ => .ctl
  | .setTrig _ => .trig
  | .enableVectoring | .disableVectoring => .shv

def Call.val : Call → BitVec 32
  | .setPriority prio => prio
  | .setTrig trig => trig
  | .enableInt | .enablePcs | .pendInt | .enableVectoring => 1
  | .disableInt | .disablePcs | .ackInt | .disableVectoring => 0

theorem Call.run_eq (id : BitVec 32) (call : Call) :
    call.run id = writeIntreg id call.field call.val := by
  cases call <;> rfl

end Atalanta.SmokeTests

namespace Atalanta.Clic

open BitField Bsp

/-- A setter of either API, and the interrupt it is called for. -/
inductive Setter
  | helloRt (overflowChecks : Bool) (id : BitVec 32) (call : HelloRt.Call)
  | smokeTests (id : BitVec 32) (call : SmokeTests.Call)

def Setter.field : Setter → IntregField
  | .helloRt _ _ call => call.field
  | .smokeTests _ call => call.field

/-- What the setter writes where, when it has read the word. -/
def Setter.writes (orig : BitVec 32) : Setter → BitVec 32 → Option (BitVec 32)
  | .helloRt overflowChecks id call => (onWord orig (call.run overflowChecks id)).2
  | .smokeTests id call => (onWord orig (call.run id)).2

def KeepsNeighbours (orig word : BitVec 32) (field : IntregField) : Prop :=
  ∀ other : Field, other ∉ field.covers →
    word.extractLsb' other.lo other.length = orig.extractLsb' other.lo other.length

def Setter.KeepsNeighbours (orig : BitVec 32) (setter : Setter) : Prop :=
  ∀ addr word, setter.writes orig addr = some word → Clic.KeepsNeighbours orig word setter.field

/-- Only the trigger of `clic.h` can be longer than its field and have a field above it: the mode
and the level. -/
def Setter.Clean (orig : BitVec 32) : Setter → Prop
  | .smokeTests _ (.setTrig trig) => Absorbs orig 22 32 17 trig
  | _ => True

theorem IntregField.mask_eq (field : IntregField) : field.mask = fieldMask field.width := by
  cases field <;> rfl

theorem IntregField.inWord (field : IntregField) : field.bit.toNat < 32 := by
  cases field <;> decide

theorem IntregField.apart {field : IntregField} {other : Field} (neighbour : other ∉ field.covers) :
    other.lo + other.length ≤ field.bit.toNat ∨
      field.bit.toNat + field.width.toNat ≤ other.lo := by
  cases field <;> cases other <;> first | exact absurd (by decide) neighbour | decide

def IntregField.put (field : IntregField) (val word : BitVec 32) : BitVec 32 :=
  orField word field.bit.toNat field.width.toNat val

theorem keepsNeighbours_put_iff (orig : BitVec 32) (field : IntregField) (val : BitVec 32) :
    KeepsNeighbours orig (field.put val orig) field ↔
      ∀ other : Field, other ∉ field.covers →
        Absorbs orig other.lo (other.lo + other.length) field.bit.toNat val :=
  forall_congr' fun other => forall_congr' fun neighbour =>
    field_orField_iff orig _ _ val other.lo other.inside (field.apart neighbour)

/-- What goes above the field is in the word already. -/
def IntregField.Takes (field : IntregField) (val orig : BitVec 32) : Prop :=
  Absorbs orig (field.bit.toNat + field.width.toNat) 32 field.bit.toNat val

theorem IntregField.takes_of_short (orig : BitVec 32) {field : IntregField} {val : BitVec 32}
    (short : val.toNat < 2 ^ field.width.toNat) : field.Takes val orig := by
  refine absorbs_of_clear orig (Nat.le_refl _) fun bit above => ?_
  rw [BitVec.getLsbD, Nat.testBit_lt_two_pow]
  exact Nat.lt_of_lt_of_le short (Nat.pow_le_pow_right (by decide) above)

theorem IntregField.takes_ctl (val orig : BitVec 32) : IntregField.ctl.Takes val orig :=
  fun _ above within => absurd above (Nat.not_le.mpr within)

theorem keepsNeighbours_of_takes {orig val : BitVec 32} {field : IntregField}
    (takes : field.Takes val orig) : KeepsNeighbours orig (field.put val orig) field := by
  refine (keepsNeighbours_put_iff orig field val).mpr fun other neighbour => ?_
  rcases field.apart neighbour with below | above
  · exact absorbs_below orig val below
  · intro bit after before
    have inside := other.inside
    exact takes bit (by omega) (by omega)

theorem keepsNeighbours_trig_iff (orig val : BitVec 32) :
    KeepsNeighbours orig (IntregField.trig.put val orig) .trig ↔ Absorbs orig 22 32 17 val := by
  rw [keepsNeighbours_put_iff, absorbs_append (show 22 ≤ 24 by decide) (show 24 ≤ 32 by decide)]
  constructor
  · exact fun kept => ⟨kept .mode (by decide), kept .level (by decide)⟩
  · rintro ⟨mode, level⟩ other neighbour
    cases other with
    | mode => exact mode
    | level => exact level
    | trig | polarity => exact absurd (by decide) neighbour
    | ip | ie | pcs | shv => exact absorbs_below orig val (by decide)

theorem writes_smokeTests (orig id : BitVec 32) (call : SmokeTests.Call) :
    (Setter.smokeTests id call).writes orig =
      onlyAt (SmokeTests.intregAddr id) (call.field.put call.val orig) := by
  rw [Setter.writes, call.run_eq, SmokeTests.writeIntreg, call.field.mask_eq,
    onWord_writeWord orig _ _ call.field.inWord]
  rfl

theorem writes_helloRt (orig : BitVec 32) {overflowChecks : Bool} {id addr : BitVec 32}
    (computed : HelloRt.intregAddr overflowChecks id = .ok addr) (call : HelloRt.Call) :
    (Setter.helloRt overflowChecks id call).writes orig =
      onlyAt addr (call.field.put call.val orig) := by
  rw [Setter.writes, call.run_eq, HelloRt.modifyIntreg, computed, orPanic, call.field.mask_eq,
    onWord_modifyU32 overflowChecks orig _ _ call.field.inWord]
  rfl

theorem writes_panicked (orig : BitVec 32) {overflowChecks : Bool} {id : BitVec 32} {panic : Panic}
    (panicked : HelloRt.intregAddr overflowChecks id = .error panic) (call : HelloRt.Call) :
    (Setter.helloRt overflowChecks id call).writes orig = fun _ => none := by
  rw [Setter.writes, call.run_eq, HelloRt.modifyIntreg, panicked]
  rfl

theorem helloRt_takes (orig : BitVec 32) (call : HelloRt.Call) :
    call.field.Takes call.val orig := by
  cases call with
  | setLevel level => exact IntregField.takes_ctl level orig
  | setTrig trig => exact IntregField.takes_of_short orig (by cases trig <;> decide)
  | _ => exact IntregField.takes_of_short orig (by decide)

theorem smokeTests_put_iff (orig id : BitVec 32) (call : SmokeTests.Call) :
    KeepsNeighbours orig (call.field.put call.val orig) call.field ↔
      (Setter.smokeTests id call).Clean orig := by
  cases call with
  | setTrig trig => exact keepsNeighbours_trig_iff orig trig
  | setPriority prio =>
      exact iff_of_true (keepsNeighbours_of_takes (IntregField.takes_ctl prio orig)) trivial
  | _ =>
      refine iff_of_true (keepsNeighbours_of_takes ?_) trivial
      exact IntregField.takes_of_short orig (by decide)

theorem keepsNeighbours_of_onlyAt {orig addr word : BitVec 32} {setter : Setter}
    (writes : setter.writes orig = onlyAt addr word) :
    setter.KeepsNeighbours orig ↔ KeepsNeighbours orig word setter.field := by
  rw [Setter.KeepsNeighbours, writes]
  constructor
  · exact fun keeps => keeps addr word (if_pos rfl)
  · intro keeps other stored there
    rw [onlyAt] at there
    split at there
    · exact Option.some.inj there ▸ keeps
    · cases there

theorem setter_keepsNeighbours_iff (orig : BitVec 32) (setter : Setter) :
    setter.KeepsNeighbours orig ↔ setter.Clean orig := by
  cases setter with
  | helloRt overflowChecks id call =>
      refine iff_of_true ?_ trivial
      cases computed : HelloRt.intregAddr overflowChecks id with
      | ok addr =>
          exact (keepsNeighbours_of_onlyAt (writes_helloRt orig computed call)).mpr
            (keepsNeighbours_of_takes (helloRt_takes orig call))
      | error panic =>
          intro addr word there
          rw [writes_panicked orig computed call] at there
          cases there
  | smokeTests id call =>
      rw [keepsNeighbours_of_onlyAt (writes_smokeTests orig id call)]
      exact smokeTests_put_iff orig id call

/-- The helpers write what `bf_insert` gives exactly where the word absorbs the bits of the value
above the field. The setters keep the fields around theirs, all but the one of `clic.h` for the
trigger, which keeps them where the word absorbs its bits. -/
theorem field_writes_iff (overflowChecks : Bool) (orig addr value : BitVec 32) {bit width : Usize}
    (positive : 1 ≤ width.toNat) (short : width.toNat < 32)
    (fits : bit.toNat + width.toNat ≤ 32) (setter : Setter) :
    (HelpersAgree overflowChecks orig addr bit width value ↔
        Absorbs orig (bit.toNat + width.toNat) 32 bit.toNat value) ∧
      (setter.KeepsNeighbours orig ↔ setter.Clean orig) :=
  ⟨helpersAgree_iff overflowChecks orig addr value (by omega) short,
    setter_keepsNeighbours_iff orig setter⟩

theorem field_writes_at :
    (HelpersAgree true 0x01000001 0x51000 8 1 0x3 ↔ Absorbs (0x01000001 : BitVec 32) 9 32 8 0x3) ∧
      ((Setter.smokeTests 0 (.setTrig 0x21)).KeepsNeighbours 0x01000001 ↔
        (Setter.smokeTests 0 (.setTrig 0x21)).Clean 0x01000001) :=
  field_writes_iff true 0x01000001 0x51000 0x3 (by decide) (by decide) (by decide)
    (.smokeTests 0 (.setTrig 0x21))

/-- The fifth bit of a value for the enable of an interrupt sets its PCS, the sixth bit of a
trigger its mode. -/
theorem field_writes_fail :
    bfInsert 0 8 1 0x10 = .ok 0 ∧
      onWord 0 (modifyU32 true 0x51000 0x10 (fieldMask 1) 8) = (.ok (), onlyAt 0x51000 0x1000) ∧
      onWord 0 (SmokeTests.writeWord 0x51000 0x10 (fieldMask 1) 8) =
        (some (), onlyAt 0x51000 0x1000) ∧
      ¬HelpersAgree true 0 0x51000 8 1 0x10 ∧
      ¬(Setter.smokeTests 0 (.setTrig 0x20)).KeepsNeighbours 0 := by
  have modified : onWord 0 (modifyU32 true 0x51000 0x10 (fieldMask 1) 8) =
      (.ok (), onlyAt 0x51000 0x1000) :=
    onWord_modifyU32 true 0 0x51000 0x10 (by decide)
  have written : onWord 0 (SmokeTests.writeWord 0x51000 0x10 (fieldMask 1) 8) =
      (some (), onlyAt 0x51000 0x1000) :=
    onWord_writeWord 0 0x51000 0x10 (by decide)
  refine ⟨rfl, modified, written, fun agree => ?_, fun keeps => ?_⟩
  · have absorbs := (helpersAgree_iff true 0 0x51000 0x10 (by decide) (by decide)).mp agree
    exact absurd (absorbs 12 (by decide) (by decide) (by decide) (by decide)) (by decide)
  · have absorbs := (setter_keepsNeighbours_iff 0 _).mp keeps
    exact absurd (absorbs 22 (by decide) (by decide) (by decide) (by decide)) (by decide)

end Atalanta.Clic
