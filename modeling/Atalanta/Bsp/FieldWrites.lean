import Atalanta.Bsp.Register
import Atalanta.Library.Device

/-! The helpers that write one field of a register: `modify_u32` of `lib.rs` and `write_word` of
`clic.h`, beside `bf_insert` of `register.rs`. -/

namespace Atalanta.SmokeTests

open Bsp

-- undefined from 32 places on; gcc shifts a signed word as it shifts its bits
def shl (value bits : BitVec 32) : Option (BitVec 32) :=
  if bits.toNat < 32 then some (value <<< bits.toNat) else none

/-- `val` is the word of a signed integer, `none` an undefined shift. -/
def writeWord (addr val mask bitPos : BitVec 32) : Driver (Option Unit) := do
  let tmp ← readU32 addr
  match shl mask bitPos, shl val bitPos with
  | some place, some field => do
      writeU32 addr (tmp &&& ~~~place ||| field)
      return some ()
  | _, _ => return none

end Atalanta.SmokeTests

namespace Atalanta.Bsp

open BitField BusProgram SmokeTests

-- without overflow checks the number of places wraps
def shlU32 (overflowChecks : Bool) (value bits : BitVec 32) : Except Panic (BitVec 32) :=
  if overflowChecks && decide (32 ≤ bits.toNat) then .error .overflow
  else .ok (value <<< (bits.toNat % 32))

def modifyU32 (overflowChecks : Bool) (addr val mask bitPos : BitVec 32) :
    Driver (Except Panic Unit) := do
  let tmp ← readU32 addr
  orPanic (shlU32 overflowChecks mask bitPos) fun place =>
    orPanic (shlU32 overflowChecks val bitPos) fun field => do
      writeU32 addr (tmp &&& ~~~place ||| field)
      return .ok ()

def fieldMask (width : Usize) : Usize := BitVec.ofNat 32 (2 ^ width.toNat - 1)

theorem fieldMask_eq (width : Usize) : fieldMask width = onesBelow width.toNat := by
  apply BitVec.eq_of_toNat_eq
  rw [fieldMask, onesBelow, BitVec.toNat_ofNat, BitVec.toNat_setWidth, BitVec.toNat_allOnes]

/-- What both helpers are, with the mask of a field and in range. -/
def writeField (addr : BitVec 32) (bit width : Usize) (value : BitVec 32) : Driver Unit := do
  let tmp ← readU32 addr
  writeU32 addr (orField tmp bit.toNat width.toNat value)

theorem shlU32_of_lt (overflowChecks : Bool) (value : BitVec 32) {bits : BitVec 32}
    (inWord : bits.toNat < 32) : shlU32 overflowChecks value bits = .ok (value <<< bits.toNat) := by
  simp [shlU32, inWord, Nat.mod_eq_of_lt]

theorem modifyU32_eq (overflowChecks : Bool) (addr value : BitVec 32) {bit : Usize} (width : Usize)
    (inWord : bit.toNat < 32) :
    modifyU32 overflowChecks addr value (fieldMask width) bit =
      (do writeField addr bit width value; return .ok ()) := by
  simp only [modifyU32, shlU32_of_lt overflowChecks _ inWord, orPanic, fieldMask_eq]
  rfl

theorem writeWord_eq (addr value : BitVec 32) {bit : Usize} (width : Usize)
    (inWord : bit.toNat < 32) :
    SmokeTests.writeWord addr value (fieldMask width) bit =
      (do writeField addr bit width value; return some ()) := by
  simp only [SmokeTests.writeWord, shl, if_pos inWord, fieldMask_eq]
  rfl

/-- What a program returns and writes when its reads give the word. -/
def onWord {τ : Type} (orig : BitVec 32) (program : Driver τ) :
    τ × (BitVec 32 → Option (BitVec 32)) :=
  let ended := program.exec (recorder fun _ => orig) .none
  (ended.1, ended.2.written)

def onlyAt (addr word : BitVec 32) : BitVec 32 → Option (BitVec 32) :=
  fun other => if other = addr then some word else none

theorem onlyAt_injective {addr word other : BitVec 32}
    (same : onlyAt addr word = onlyAt addr other) : word = other := by
  have here := congrFun same addr
  simpa only [onlyAt, if_true, Option.some.injEq] using here

/-- Both helpers store the word that `bf_insert` gives. -/
def HelpersAgree (overflowChecks : Bool) (orig addr : BitVec 32) (bit width value : Usize) : Prop :=
  ∃ word, bfInsert orig bit width value = .ok word ∧
    onWord orig (modifyU32 overflowChecks addr value (fieldMask width) bit) =
      (.ok (), onlyAt addr word) ∧
    onWord orig (SmokeTests.writeWord addr value (fieldMask width) bit) =
      (some (), onlyAt addr word)

section Agree

variable (overflowChecks : Bool) (orig addr value : BitVec 32) {bit width : Usize}
  (inWord : bit.toNat < 32)

include inWord

theorem onWord_modifyU32 :
    onWord orig (modifyU32 overflowChecks addr value (fieldMask width) bit) =
      (.ok (), onlyAt addr (orField orig bit.toNat width.toNat value)) := by
  rw [modifyU32_eq overflowChecks addr value width inWord]
  rfl

theorem onWord_writeWord :
    onWord orig (SmokeTests.writeWord addr value (fieldMask width) bit) =
      (some (), onlyAt addr (orField orig bit.toNat width.toNat value)) := by
  rw [writeWord_eq addr value width inWord]
  rfl

/-- The helpers agree exactly where the word absorbs the bits of the value above the field. -/
theorem helpersAgree_iff (short : width.toNat < 32) :
    HelpersAgree overflowChecks orig addr bit width value ↔
      Absorbs orig (bit.toNat + width.toNat) 32 bit.toNat value := by
  rw [← orField_eq_putField_iff]
  constructor
  · rintro ⟨word, inserts, modifies, _⟩
    have inserted : word = putField orig bit.toNat (value.setWidth width.toNat) :=
      Except.ok.inj (inserts.symm.trans (bfInsert_eq orig value short inWord))
    have writes := modifies.symm.trans (onWord_modifyU32 overflowChecks orig addr value inWord)
    exact (onlyAt_injective (congrArg Prod.snd writes)).symm.trans inserted
  · intro same
    refine ⟨_, bfInsert_eq orig value short inWord, ?_, ?_⟩
    · rw [onWord_modifyU32 overflowChecks orig addr value inWord, same]
    · rw [onWord_writeWord orig addr value inWord, same]

end Agree

end Atalanta.Bsp
