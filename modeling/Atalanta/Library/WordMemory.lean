import Mathlib.Data.BitVec

/-! Little-endian 32-bit words in a byte-addressed memory, and arrays of word slots above a
base address. Addresses wrap around; what is apart is measured from the base. -/

namespace WordMemory

abbrev Memory := BitVec 32 → BitVec 8

def byteAt (value : BitVec 32) (byte : Nat) : BitVec 8 := value.extractLsb' (8 * byte) 8

def load (memory : Memory) (addr : BitVec 32) : BitVec 32 :=
  memory (addr + 3) ++ memory (addr + 2) ++ memory (addr + 1) ++ memory (addr + 0)

def store (memory : Memory) (addr value : BitVec 32) : Memory :=
  fun byte =>
    if (byte - addr).toNat < 4 then byteAt value (byte - addr).toNat else memory byte

theorem append_byteAt (value : BitVec 32) :
    byteAt value 3 ++ byteAt value 2 ++ byteAt value 1 ++ byteAt value 0 = value := by
  apply BitVec.eq_of_getLsbD_eq
  intro bit within
  simp only [BitVec.getLsbD_append, byteAt, BitVec.getLsbD_extractLsb']
  by_cases first : bit < 8
  · simp [first]
  · by_cases second : bit - 8 < 8
    · rw [if_neg first, if_pos second, show 8 * 1 + (bit - 8) = bit by omega]
      simp [second]
    · by_cases third : bit - 8 - 8 < 8
      · rw [if_neg first, if_neg second, if_pos third,
          show 8 * 2 + (bit - 8 - 8) = bit by omega]
        simp [third]
      · rw [if_neg first, if_neg second, if_neg third,
          show 8 * 3 + (bit - 8 - 8 - 8) = bit by omega]
        simp [show bit - 8 - 8 - 8 < 8 by omega]

theorem load_congr {left right : Memory} {addr : BitVec 32}
    (agree : ∀ byte : BitVec 32, byte.toNat < 4 → left (addr + byte) = right (addr + byte)) :
    load left addr = load right addr := by
  unfold load
  rw [agree 3 (by decide), agree 2 (by decide), agree 1 (by decide), agree 0 (by decide)]

theorem load_store_same (memory : Memory) (addr value : BitVec 32) :
    load (store memory addr value) addr = value := by
  have inside (byte : BitVec 32) (small : byte.toNat < 4) :
      store memory addr value (addr + byte) = byteAt value byte.toNat := by
    unfold store
    rw [add_sub_cancel_left, if_pos small]
  unfold load
  rw [inside 3 (by decide), inside 2 (by decide), inside 1 (by decide), inside 0 (by decide)]
  exact append_byteAt value

theorem store_apart (memory : Memory) {addr byte : BitVec 32} (value : BitVec 32)
    (apart : 4 ≤ (byte - addr).toNat) : store memory addr value byte = memory byte :=
  if_neg (Nat.not_lt.mpr apart)

theorem wordAddr_toNat (addr : BitVec 32) :
    (addr &&& 0xFFFFFFFC).toNat = addr.toNat / 4 * 4 := by
  have mask : ∀ bit < 32, (0xFFFFFFFC : BitVec 32).getLsbD bit = decide (2 ≤ bit) := by decide
  have cleared : addr &&& (0xFFFFFFFC : BitVec 32) = addr >>> 2 <<< 2 := by
    apply BitVec.eq_of_getLsbD_eq
    intro bit within
    rw [BitVec.getLsbD_and, mask bit within, BitVec.getLsbD_shiftLeft,
      BitVec.getLsbD_ushiftRight]
    by_cases low : bit < 2
    · simp [low]
    · simp [within, low, show 2 ≤ bit by omega, show 2 + (bit - 2) = bit by omega]
  have bounded := addr.isLt
  rw [cleared, BitVec.toNat_shiftLeft, BitVec.toNat_ushiftRight, Nat.shiftLeft_eq,
    Nat.shiftRight_eq_div_pow]
  omega

def slot (base : BitVec 32) (index : Nat) : BitVec 32 := base + BitVec.ofNat 32 (4 * index)

theorem slot_toNat {base : BitVec 32} {index : Nat} (fits : base.toNat + 4 * index < 2 ^ 32) :
    (slot base index).toNat = base.toNat + 4 * index := by
  rw [slot, BitVec.toNat_add, BitVec.toNat_ofNat]
  omega

/-- The distance of a byte from the base tells whether a slot holds it. -/
theorem slot_byte (base byte : BitVec 32) {index : Nat} (fits : index < 2 ^ 29) :
    (byte - slot base index).toNat < 4 ↔
      4 * index ≤ (byte - base).toNat ∧ (byte - base).toNat < 4 * index + 4 := by
  have shifted : byte - slot base index = (byte - base) - BitVec.ofNat 32 (4 * index) :=
    sub_add_eq_sub_sub byte base _
  rw [shifted]
  generalize byte - base = offset
  rw [BitVec.toNat_sub, BitVec.toNat_ofNat]
  have bounded := offset.isLt
  omega

theorem store_slot_outside (memory : Memory) {base byte : BitVec 32} {index : Nat}
    (value : BitVec 32) (fits : index < 2 ^ 29) (outside : 4 * index + 4 ≤ (byte - base).toNat) :
    store memory (slot base index) value byte = memory byte := by
  apply store_apart
  have held := slot_byte base byte fits
  omega

theorem load_store_slot (memory : Memory) (base value : BitVec 32) {index other : Nat}
    (fits : index < 2 ^ 29) (otherFits : other < 2 ^ 29) (apart : index ≠ other) :
    load (store memory (slot base index) value) (slot base other) =
      load memory (slot base other) := by
  apply load_congr
  intro byte small
  apply store_apart
  have held := slot_byte base (slot base other + byte) fits
  have here := slot_byte base (slot base other + byte) otherFits
  rw [add_sub_cancel_left] at here
  omega

theorem load_slot_congr {left right : Memory} {base : BitVec 32} {index : Nat}
    (fits : index < 2 ^ 29)
    (agree : ∀ byte : BitVec 32, 4 * index ≤ (byte - base).toNat →
      (byte - base).toNat < 4 * index + 4 → left byte = right byte) :
    load left (slot base index) = load right (slot base index) := by
  apply load_congr
  intro byte small
  have held := slot_byte base (slot base index + byte) fits
  rw [add_sub_cancel_left] at held
  obtain ⟨above, below⟩ := held.mp small
  exact agree _ above below

def storeSlots (base : BitVec 32) : List (BitVec 32) → Nat → Memory → Memory
  | [], _, memory => memory
  | value :: rest, index, memory =>
    storeSlots base rest (index + 1) (store memory (slot base index) value)

theorem storeSlots_outside (base : BitVec 32) {byte : BitVec 32} (values : List (BitVec 32))
    (start : Nat) (memory : Memory) (fits : start + values.length ≤ 2 ^ 29)
    (outside : 4 * (start + values.length) ≤ (byte - base).toNat) :
    storeSlots base values start memory byte = memory byte := by
  induction values generalizing start memory with
  | nil => rfl
  | cons value rest ih =>
      rw [List.length_cons] at fits outside
      rw [storeSlots, ih (start + 1) _ (by omega) (by omega)]
      exact store_slot_outside memory value (by omega) (by omega)

theorem load_storeSlots_other (base : BitVec 32) (values : List (BitVec 32)) (start : Nat)
    (memory : Memory) (fits : start + values.length ≤ 2 ^ 29) {index : Nat}
    (other : index < start) :
    load (storeSlots base values start memory) (slot base index) =
      load memory (slot base index) := by
  induction values generalizing start memory with
  | nil => rfl
  | cons value rest ih =>
      rw [List.length_cons] at fits
      rw [storeSlots, ih (start + 1) _ (by omega) (by omega)]
      exact load_store_slot memory base value (by omega) (by omega) (by omega)

theorem load_storeSlots (base : BitVec 32) (values : List (BitVec 32)) (start : Nat)
    (memory : Memory) (fits : start + values.length ≤ 2 ^ 29) {index : Nat} {value : BitVec 32}
    (stored : values[index]? = some value) :
    load (storeSlots base values start memory) (slot base (start + index)) = value := by
  induction values generalizing start memory index with
  | nil => cases stored
  | cons first rest ih =>
      rw [List.length_cons] at fits
      cases index with
      | zero =>
          obtain rfl : first = value := Option.some.inj stored
          rw [storeSlots, Nat.add_zero,
            load_storeSlots_other base rest (start + 1) _ (by omega) (by omega)]
          exact load_store_same memory _ first
      | succ index =>
          have later := ih (start + 1) (store memory (slot base start) first) (by omega) stored
          rwa [show start + 1 + index = start + (index + 1) by omega] at later

end WordMemory
