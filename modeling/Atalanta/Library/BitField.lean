/-! Bit fields of a word: reading the bits from a position on, and writing them with every other
bit left as it is. -/

namespace BitField

variable {width length other : Nat}

def mask (width lo length : Nat) : BitVec width := (BitVec.allOnes length).setWidth width <<< lo

/-- The word with `value` in the bits from `lo` on. -/
def putField (word : BitVec width) (lo : Nat) (value : BitVec length) : BitVec width :=
  (word &&& ~~~mask width lo length) ||| (value.setWidth width <<< lo)

theorem getLsbD_mask (lo bit : Nat) (within : bit < width) :
    (mask width lo length).getLsbD bit = decide (lo ≤ bit ∧ bit < lo + length) := by
  rw [mask, BitVec.getLsbD_shiftLeft, BitVec.getLsbD_setWidth, BitVec.getLsbD_allOnes]
  by_cases above : lo ≤ bit
  · have inWord : bit - lo < width := by omega
    simp only [within, above, inWord, decide_true, Bool.true_and, true_and,
      show ¬bit < lo by omega, decide_false, Bool.not_false]
    exact decide_eq_decide.mpr (by omega)
  · simp [above, show bit < lo by omega]

theorem getLsbD_putField (word : BitVec width) (lo : Nat) (value : BitVec length) (bit : Nat)
    (within : bit < width) :
    (putField word lo value).getLsbD bit =
      if lo ≤ bit ∧ bit < lo + length then value.getLsbD (bit - lo) else word.getLsbD bit := by
  rw [putField, BitVec.getLsbD_or, BitVec.getLsbD_and, BitVec.getLsbD_not,
    getLsbD_mask lo bit within, BitVec.getLsbD_shiftLeft, BitVec.getLsbD_setWidth]
  by_cases above : lo ≤ bit
  · have inWord : bit - lo < width := by omega
    by_cases inside : bit < lo + length
    · simp [within, above, inside, inWord, show ¬bit < lo by omega]
    · have clear : value.getLsbD (bit - lo) = false := BitVec.getLsbD_of_ge _ _ (by omega)
      simp [within, above, inside, clear]
  · simp [within, above, show bit < lo by omega]

theorem getLsbD_putBit (word : BitVec width) (at_ : Nat) (value : Bool) (bit : Nat)
    (within : bit < width) :
    (putField word at_ (BitVec.ofBool value)).getLsbD bit =
      if bit = at_ then value else word.getLsbD bit := by
  rw [getLsbD_putField word at_ _ bit within]
  by_cases same : bit = at_
  · simp [same]
  · rw [if_neg (by omega), if_neg same]

theorem getLsbD_putRange (word value : BitVec width) {first last : Nat} (order : first ≤ last)
    (bit : Nat) (within : bit < width) :
    (putField word first (value.setWidth (last + 1 - first))).getLsbD bit =
      if first ≤ bit ∧ bit ≤ last then value.getLsbD (bit - first) else word.getLsbD bit := by
  rw [getLsbD_putField word first _ bit within, BitVec.getLsbD_setWidth]
  by_cases covered : first ≤ bit ∧ bit ≤ last
  · rw [if_pos (by omega), if_pos covered]
    simp [show bit - first < last + 1 - first by omega]
  · rw [if_neg (by omega), if_neg covered]

theorem field_putField (word : BitVec width) (lo : Nat) (value : BitVec length)
    (fits : lo + length ≤ width) : (putField word lo value).extractLsb' lo length = value := by
  apply BitVec.eq_of_getLsbD_eq
  intro bit within
  rw [BitVec.getLsbD_extractLsb', getLsbD_putField word lo value _ (by omega), if_pos (by omega),
    Nat.add_sub_cancel_left]
  simp [within]

theorem putField_field (word : BitVec width) (lo : Nat) :
    putField word lo (word.extractLsb' lo length) = word := by
  apply BitVec.eq_of_getLsbD_eq
  intro bit within
  rw [getLsbD_putField word lo _ bit within]
  split
  · rename_i inside
    have offset : bit - lo < length := by omega
    rw [BitVec.getLsbD_extractLsb', Nat.add_sub_cancel' inside.1]
    simp only [offset, decide_true, Bool.true_and]
  · rfl

theorem field_putField_apart (word : BitVec width) (lo : Nat) (value : BitVec length) (at_ : Nat)
    (fits : at_ + other ≤ width) (apart : at_ + other ≤ lo ∨ lo + length ≤ at_) :
    (putField word lo value).extractLsb' at_ other = word.extractLsb' at_ other := by
  apply BitVec.eq_of_getLsbD_eq
  intro bit within
  rw [BitVec.getLsbD_extractLsb', BitVec.getLsbD_extractLsb',
    getLsbD_putField word lo value _ (by omega), if_neg (by omega)]

/-- A field in two parts, written one after the other. -/
theorem putField_split (word : BitVec width) (lo : Nat) (value : BitVec length) (low high : Nat)
    (parts : low + high = length) :
    putField word lo value =
      putField (putField word lo (value.extractLsb' 0 low)) (lo + low)
        (value.extractLsb' low high) := by
  apply BitVec.eq_of_getLsbD_eq
  intro bit within
  rw [getLsbD_putField _ _ _ bit within, getLsbD_putField _ _ _ bit within,
    getLsbD_putField _ _ _ bit within, BitVec.getLsbD_extractLsb', BitVec.getLsbD_extractLsb']
  by_cases upper : lo + low ≤ bit ∧ bit < lo + low + high
  · rw [if_pos (by omega), if_pos upper]
    simp [show bit - (lo + low) < high by omega, show low + (bit - (lo + low)) = bit - lo by omega]
  · rw [if_neg upper]
    by_cases lower : lo ≤ bit ∧ bit < lo + low
    · rw [if_pos (by omega), if_pos lower]
      simp [show bit - lo < low by omega]
    · rw [if_neg (by omega), if_neg lower]

theorem field_field (word : BitVec width) (lo at_ : Nat) (inside : at_ + other ≤ length) :
    (word.extractLsb' lo length).extractLsb' at_ other = word.extractLsb' (lo + at_) other := by
  apply BitVec.eq_of_getLsbD_eq
  intro bit within
  rw [BitVec.getLsbD_extractLsb', BitVec.getLsbD_extractLsb', BitVec.getLsbD_extractLsb',
    Nat.add_assoc]
  simp [within, show at_ + bit < length by omega]

/-- A field that is cleared before a value is or-ed into it, whatever the length of the value. -/
def orField (word : BitVec width) (lo length : Nat) (value : BitVec width) : BitVec width :=
  (word &&& ~~~mask width lo length) ||| (value <<< lo)

/-- What the value puts into the range when it starts at `lo` is set already. -/
def Absorbs (word : BitVec width) (first last lo : Nat) (value : BitVec width) : Prop :=
  ∀ bit, first ≤ bit → bit < last → lo ≤ bit → value.getLsbD (bit - lo) = true →
    word.getLsbD bit = true

theorem getLsbD_orField_inside (word : BitVec width) (lo length : Nat) (value : BitVec width)
    {bit : Nat} (within : bit < width) (inside : lo ≤ bit ∧ bit < lo + length) :
    (orField word lo length value).getLsbD bit = value.getLsbD (bit - lo) := by
  rw [orField, BitVec.getLsbD_or, BitVec.getLsbD_and, BitVec.getLsbD_not,
    getLsbD_mask lo bit within, BitVec.getLsbD_shiftLeft]
  simp [within, inside.1, inside.2, show ¬bit < lo by omega]

theorem getLsbD_orField_apart (word : BitVec width) (lo length : Nat) (value : BitVec width)
    {bit : Nat} (within : bit < width) (apart : bit < lo ∨ lo + length ≤ bit) :
    (orField word lo length value).getLsbD bit =
      (word.getLsbD bit || (decide (lo ≤ bit) && value.getLsbD (bit - lo))) := by
  have outside : ¬(lo ≤ bit ∧ bit < lo + length) := by omega
  rw [orField, BitVec.getLsbD_or, BitVec.getLsbD_and, BitVec.getLsbD_not,
    getLsbD_mask lo bit within, BitVec.getLsbD_shiftLeft, decide_eq_false outside]
  by_cases above : lo ≤ bit
  · simp [within, above, show ¬bit < lo by omega]
  · simp [within, above, show bit < lo by omega]

theorem getLsbD_orField_kept_iff (word : BitVec width) (lo length : Nat) (value : BitVec width)
    {bit : Nat} (within : bit < width) (apart : bit < lo ∨ lo + length ≤ bit) :
    (orField word lo length value).getLsbD bit = word.getLsbD bit ↔
      (lo ≤ bit → value.getLsbD (bit - lo) = true → word.getLsbD bit = true) := by
  rw [getLsbD_orField_apart word lo length value within apart]
  cases word.getLsbD bit <;> simp

theorem field_orField_iff (word : BitVec width) (lo length : Nat) (value : BitVec width)
    (at_ : Nat) (fits : at_ + other ≤ width) (apart : at_ + other ≤ lo ∨ lo + length ≤ at_) :
    (orField word lo length value).extractLsb' at_ other = word.extractLsb' at_ other ↔
      Absorbs word at_ (at_ + other) lo value := by
  constructor
  · intro same bit above below
    have kept := congrArg (fun bits => bits.getLsbD (bit - at_)) same
    simp only [BitVec.getLsbD_extractLsb', Nat.add_sub_cancel' above,
      show bit - at_ < other by omega, decide_true, Bool.true_and] at kept
    exact (getLsbD_orField_kept_iff word lo length value (by omega) (by omega)).mp kept
  · intro absorbs
    apply BitVec.eq_of_getLsbD_eq
    intro bit within
    have inWord : at_ + bit < width := by omega
    have outside : at_ + bit < lo ∨ lo + length ≤ at_ + bit := by omega
    have kept := (getLsbD_orField_kept_iff word lo length value inWord outside).mpr
      (absorbs (at_ + bit) (by omega) (by omega))
    rw [BitVec.getLsbD_extractLsb', BitVec.getLsbD_extractLsb', kept]

/-- The value of a field may only be left unmasked where the word absorbs what is above it. -/
theorem orField_eq_putField_iff (word : BitVec width) (lo length : Nat) (value : BitVec width) :
    orField word lo length value = putField word lo (value.setWidth length) ↔
      Absorbs word (lo + length) width lo value := by
  constructor
  · intro same bit above within
    have apart : bit < lo ∨ lo + length ≤ bit := .inr above
    have kept : (orField word lo length value).getLsbD bit = word.getLsbD bit := by
      rw [same, getLsbD_putField word lo _ bit within, if_neg (by omega)]
    exact (getLsbD_orField_kept_iff word lo length value within apart).mp kept
  · intro absorbs
    apply BitVec.eq_of_getLsbD_eq
    intro bit within
    rw [getLsbD_putField word lo _ bit within]
    by_cases inside : lo ≤ bit ∧ bit < lo + length
    · rw [if_pos inside, getLsbD_orField_inside word lo length value within inside,
        BitVec.getLsbD_setWidth]
      simp [show bit - lo < length by omega]
    · have apart : bit < lo ∨ lo + length ≤ bit := by omega
      rw [if_neg inside]
      refine (getLsbD_orField_kept_iff word lo length value within apart).mpr fun above => ?_
      exact absorbs bit (by omega) within above

theorem absorbs_of_clear (word : BitVec width) {lo length first last : Nat} {value : BitVec width}
    (above : lo + length ≤ first) (clear : ∀ bit, length ≤ bit → value.getLsbD bit = false) :
    Absorbs word first last lo value := by
  intro bit after _ _ set
  rw [clear (bit - lo) (by omega)] at set
  cases set

theorem absorbs_below (word : BitVec width) {lo first last : Nat} (value : BitVec width)
    (below : last ≤ lo) : Absorbs word first last lo value := by
  intro bit _ before above
  omega

theorem absorbs_append {word : BitVec width} {first middle last lo : Nat} {value : BitVec width}
    (order : first ≤ middle) (rest : middle ≤ last) :
    Absorbs word first last lo value ↔
      Absorbs word first middle lo value ∧ Absorbs word middle last lo value := by
  constructor
  · exact fun absorbs => ⟨fun bit after before => absorbs bit after (by omega),
      fun bit after before => absorbs bit (by omega) before⟩
  · rintro ⟨lower, upper⟩ bit after before
    by_cases low : bit < middle
    · exact lower bit after low
    · exact upper bit (by omega) before

structure Slot where
  lo : Nat
  length : Nat
  value : BitVec length

def Slot.Apart (left right : Slot) : Prop :=
  left.lo + left.length ≤ right.lo ∨ right.lo + right.length ≤ left.lo

def putAll (word : BitVec width) (slots : List Slot) : BitVec width :=
  slots.foldl (fun word slot => putField word slot.lo slot.value) word

theorem field_putAll_apart (slots : List Slot) (word : BitVec width) (at_ : Nat)
    (fits : at_ + other ≤ width)
    (apart : ∀ slot ∈ slots, at_ + other ≤ slot.lo ∨ slot.lo + slot.length ≤ at_) :
    (putAll word slots).extractLsb' at_ other = word.extractLsb' at_ other := by
  induction slots generalizing word with
  | nil => rfl
  | cons first slots ih =>
      have rest := ih (putField word first.lo first.value) fun slot inside =>
        apart slot (List.mem_cons_of_mem _ inside)
      exact rest.trans
        (field_putField_apart word first.lo first.value at_ fits (apart _ (List.mem_cons_self ..)))

/-- Fields that are apart keep what is put into them, in any order. -/
theorem field_putAll (slots : List Slot) (word : BitVec width)
    (apart : slots.Pairwise Slot.Apart) (slot : Slot) (inside : slot ∈ slots)
    (fits : slot.lo + slot.length ≤ width) :
    (putAll word slots).extractLsb' slot.lo slot.length = slot.value := by
  induction slots generalizing word with
  | nil => cases inside
  | cons first slots ih =>
      obtain ⟨others, apart⟩ := List.pairwise_cons.mp apart
      rcases List.mem_cons.mp inside with rfl | later
      · have kept := field_putAll_apart slots (putField word slot.lo slot.value) slot.lo fits others
        exact kept.trans (field_putField word slot.lo slot.value fits)
      · exact ih _ apart later

end BitField
