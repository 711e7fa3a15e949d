import Atalanta.Bsp.Arithmetic
import Atalanta.Library.BitField

/-! The bit-field helpers of `register.rs` and the CSR accessor that is built on them. -/

namespace Atalanta.Bsp

open BitField

abbrev Usize := BitVec 32

def checkedShl (value bits : Usize) : Except Panic Usize :=
  if bits.toNat < 32 then .ok (value <<< bits.toNat) else .error .overflow

def checkedShr (value bits : Usize) : Except Panic Usize :=
  if bits.toNat < 32 then .ok (value >>> bits.toNat) else .error .overflow

def checkedSub (x y : Usize) : Except Panic Usize :=
  if y.toNat ≤ x.toNat then .ok (x - y) else .error .overflow

-- the first statement of both helpers
def bfMask (width : Usize) : Except Panic Usize :=
  (checkedShl 1#32 width).bind fun power => checkedSub power 1#32

def bfInsert (orig bit width value : Usize) : Except Panic Usize :=
  (bfMask width).bind fun mask =>
    (checkedShl mask bit).bind fun place =>
      (checkedShl (value &&& mask) bit).map fun field => orig &&& ~~~place ||| field

def bfExtract (orig bit width : Usize) : Except Panic Usize :=
  (bfMask width).bind fun mask => (checkedShr orig bit).map fun shifted => shifted &&& mask

structure Mintstatus where
  bits : Usize

def Mintstatus.mil (mintstatus : Mintstatus) : Except Panic Usize := bfExtract mintstatus.bits 31 24

def onesBelow (width : Nat) : Usize := (BitVec.allOnes width).setWidth 32

theorem one_shifted_toNat {width : Nat} (short : width < 32) :
    (1#32 <<< width).toNat = 2 ^ width := by
  have bound : 2 ^ width < 2 ^ 32 := Nat.pow_lt_pow_right (by decide) short
  exact (BitVec.toNat_twoPow 32 width).trans (Nat.mod_eq_of_lt bound)

theorem bfMask_eq {width : Usize} (short : width.toNat < 32) :
    bfMask width = .ok (onesBelow width.toNat) := by
  have power := one_shifted_toNat short
  have positive : 1 ≤ 2 ^ width.toNat := Nat.one_le_two_pow
  have bound : 2 ^ width.toNat < 2 ^ 32 := Nat.pow_lt_pow_right (by decide) short
  have below : 1#32 ≤ 1#32 <<< width.toNat := by
    rw [BitVec.le_def, power]
    exact positive
  have same : 1#32 <<< width.toNat - 1#32 = onesBelow width.toNat := by
    apply BitVec.eq_of_toNat_eq
    rw [BitVec.toNat_sub_of_le below, power, onesBelow, BitVec.toNat_setWidth,
      BitVec.toNat_allOnes, Nat.mod_eq_of_lt (by omega)]
    rfl
  rw [bfMask, checkedShl, if_pos short, Except.bind, checkedSub,
    if_pos (BitVec.le_def.mp below), same]

theorem bfMask_full {width : Usize} (full : 32 ≤ width.toNat) :
    bfMask width = .error .overflow := by
  rw [bfMask, checkedShl, if_neg (Nat.not_lt.mpr full), Except.bind]

theorem and_onesBelow (value : Usize) (width : Nat) :
    value &&& onesBelow width = (value.setWidth width).setWidth 32 := by
  apply BitVec.eq_of_getLsbD_eq
  intro at_ within
  simp only [onesBelow, BitVec.getLsbD_and, BitVec.getLsbD_setWidth, BitVec.getLsbD_allOnes,
    within, decide_true, Bool.true_and]
  exact Bool.and_comm ..

theorem shifted_field (orig : Usize) (bit width : Nat) :
    (orig >>> bit).setWidth width = orig.extractLsb' bit width := by
  apply BitVec.eq_of_getLsbD_eq
  intro other within
  rw [BitVec.getLsbD_setWidth, BitVec.getLsbD_ushiftRight, BitVec.getLsbD_extractLsb']

theorem bfInsert_eq {bit width : Usize} (orig value : Usize) (short : width.toNat < 32)
    (inWord : bit.toNat < 32) :
    bfInsert orig bit width value =
      .ok (putField orig bit.toNat (value.setWidth width.toNat)) := by
  simp only [bfInsert, bfMask_eq short, Except.bind, checkedShl, if_pos inWord, Except.map,
    and_onesBelow]
  rfl

theorem bfExtract_eq {bit width : Usize} (orig : Usize) (short : width.toNat < 32)
    (inWord : bit.toNat < 32) :
    bfExtract orig bit width =
      .ok ((orig.extractLsb' bit.toNat width.toNat).setWidth 32) := by
  simp only [bfExtract, bfMask_eq short, Except.bind, checkedShr, if_pos inWord, Except.map,
    and_onesBelow, shifted_field]

/-- The laws of a field, with every shift and subtraction on the way in range. -/
structure FieldLaws (orig bit width value : Usize) : Prop where
  inserted : ∃ word, bfInsert orig bit width value = .ok word ∧
    bfExtract word bit width = .ok (BitVec.ofNat 32 (value.toNat % 2 ^ width.toNat)) ∧
    ∀ other < 32, (other < bit.toNat ∨ bit.toNat + width.toNat ≤ other) →
      word.getLsbD other = orig.getLsbD other
  restored : ∃ field, bfExtract orig bit width = .ok field ∧
    bfInsert orig bit width field = .ok orig

theorem fieldLaws_of_short {bit width : Usize} (orig value : Usize) (short : width.toNat < 32)
    (positive : 1 ≤ width.toNat) (fits : bit.toNat + width.toNat ≤ 32) :
    FieldLaws orig bit width value where
  inserted := by
    have inWord : bit.toNat < 32 := by omega
    refine ⟨_, bfInsert_eq orig value short inWord, ?_, fun other within outside => ?_⟩
    · rw [bfExtract_eq _ short inWord, field_putField _ _ _ fits]
      congr 1
      apply BitVec.eq_of_toNat_eq
      rw [BitVec.toNat_setWidth, BitVec.toNat_setWidth, BitVec.toNat_ofNat]
    · rw [getLsbD_putField _ _ _ _ within, if_neg (by omega)]
  restored := by
    have inWord : bit.toNat < 32 := by omega
    refine ⟨_, bfExtract_eq orig short inWord, ?_⟩
    rw [bfInsert_eq _ _ short inWord, BitVec.setWidth_setWidth_of_le _ (Nat.le_of_lt short),
      BitVec.setWidth_eq, putField_field]

theorem fieldLaws_iff {bit width : Usize} (orig value : Usize) (positive : 1 ≤ width.toNat)
    (fits : bit.toNat + width.toNat ≤ 32) :
    FieldLaws orig bit width value ↔ width.toNat < 32 := by
  refine ⟨fun laws => ?_, fun short => fieldLaws_of_short orig value short positive fits⟩
  by_contra full
  obtain ⟨word, inserted, _⟩ := laws.inserted
  rw [bfInsert, bfMask_full (Nat.le_of_not_lt full)] at inserted
  cases inserted

theorem mil_bit (word : Usize) {other : Nat} (within : other < 32) :
    ((word.extractLsb' 31 24).setWidth 32).getLsbD other =
      (decide (other = 0) && word.getLsbD 31) := by
  rw [BitVec.getLsbD_setWidth, BitVec.getLsbD_extractLsb']
  by_cases first : other = 0
  · simp [first]
  · have beyond : word.getLsbD (31 + other) = false := BitVec.getLsbD_of_ge _ _ (by omega)
    simp [first, beyond]

theorem mil_eq (bits : Usize) :
    (Mintstatus.mk bits).mil = .ok ((bits.extractLsb' 31 24).setWidth 32) :=
  bfExtract_eq bits (by decide) (by decide)

theorem mil_inserted (word level : Usize) :
    (bfInsert word 24 8 level).bind (fun bits => (Mintstatus.mk bits).mil) =
      .ok (((putField word 24 (level.setWidth 8)).extractLsb' 31 24).setWidth 32) := by
  have inserted : bfInsert word 24 8 level = .ok (putField word 24 (level.setWidth 8)) :=
    bfInsert_eq word level (by decide) (by decide)
  rw [inserted, Except.bind, mil_eq]

theorem mil_inserted_bit (word level : Usize) {other : Nat} (within : other < 32) :
    (((putField word 24 (level.setWidth 8)).extractLsb' 31 24).setWidth 32).getLsbD other =
      (decide (other = 0) && level.getLsbD 7) := by
  rw [mil_bit _ within, getLsbD_putField _ _ _ _ (by decide), if_pos (by decide),
    BitVec.getLsbD_setWidth]
  rfl

/-- The accessor passes the two ends of the field for its offset and width, so that it gives the
highest bit of the level. -/
theorem mil_insert_iff (word level : Usize) (bounded : level.toNat < 256) :
    (bfInsert word 24 8 level).bind (fun bits => (Mintstatus.mk bits).mil) = .ok level ↔
      level = 0 := by
  rw [mil_inserted, Except.ok.injEq]
  constructor
  · intro same
    have bits (other : Nat) (within : other < 32) :
        level.getLsbD other = (decide (other = 0) && level.getLsbD 7) := by
      rw [← mil_inserted_bit word level within, same]
    have seventh : level.getLsbD 7 = false := bits 7 (by decide)
    apply BitVec.eq_of_getLsbD_eq
    intro other within
    rw [bits other within, seventh, Bool.and_false]
    exact BitVec.getLsbD_zero.symm
  · rintro rfl
    apply BitVec.eq_of_getLsbD_eq
    intro other within
    have zero (at_ : Nat) : (0 : Usize).getLsbD at_ = false := BitVec.getLsbD_zero
    rw [mil_inserted_bit word 0 within, zero, zero, Bool.and_false]

/-- The helpers obey the field laws below the full width of a word, the accessor at level 0. -/
theorem register_fields_iff {bit width : Usize} (orig value : Usize) (positive : 1 ≤ width.toNat)
    (fits : bit.toNat + width.toNat ≤ 32) (word : Usize) {level : Usize}
    (bounded : level.toNat < 256) :
    (FieldLaws orig bit width value ↔ width.toNat < 32) ∧
      ((bfInsert word 24 8 level).bind (fun bits => (Mintstatus.mk bits).mil) = .ok level ↔
        level = 0) :=
  ⟨fieldLaws_iff orig value positive fits, mil_insert_iff word level bounded⟩

theorem register_fields_at :
    (FieldLaws 0xFFFFFFFF 28 4 0x12 ↔ (4 : Usize).toNat < 32) ∧
      ((bfInsert 1 24 8 3).bind (fun bits => (Mintstatus.mk bits).mil) = .ok 3 ↔ (3 : Usize) = 0) :=
  register_fields_iff 0xFFFFFFFF 0x12 (by decide) (by decide) 1 (by decide)

theorem register_fields_fail :
    bfInsert 0 0 32 1 = .error .overflow ∧ ¬FieldLaws 0 0 32 1 ∧
      (bfInsert 0 24 8 5).bind (fun bits => (Mintstatus.mk bits).mil) = .ok 0 := by
  refine ⟨rfl, fun laws => ?_, rfl⟩
  obtain ⟨word, inserted, _⟩ := laws.inserted
  cases inserted

end Atalanta.Bsp
