import Atalanta.ApbMtimer.Time
import Atalanta.Bsp.Mmio

/-! The machine timer driver `mtimer.rs` on `apb_mtimer`. -/

namespace Atalanta.Bsp

open ApbMtimer BusProgram

def mtimerBase : BitVec 32 := 0x30200

def mtimeLowAddrOfs : BitVec 32 := 0
def mtimeHighAddrOfs : BitVec 32 := 4
def mtimecmpLowAddrOfs : BitVec 32 := 8
def mtimecmpHighAddrOfs : BitVec 32 := 12
def mtimeCtrlAddrOfs : BitVec 32 := 16

namespace MTimer

-- builds with debug assertions stop here on a prescaler above 7
def enableWithPrescaler (prescaler : BitVec 32) : Driver Unit :=
  writeU32 (mtimerBase + mtimeCtrlAddrOfs) (prescaler <<< 8 ||| 0b1)

def enable : Driver Unit := maskU32 (mtimerBase + mtimeCtrlAddrOfs) 0b1

def disable : Driver Unit := unmaskU32 (mtimerBase + mtimeCtrlAddrOfs) 0b1

def counter : Driver (BitVec 64) := do
  let hi ← readU32 (mtimerBase + mtimeHighAddrOfs)
  let lo ← readU32 (mtimerBase + mtimeLowAddrOfs)
  let mtime := hi.setWidth 64 <<< 32 ||| lo.setWidth 64
  return mtime

def setCounter (cnt : BitVec 64) : Driver Unit := do
  writeU32 (mtimerBase + mtimeLowAddrOfs) (cnt.setWidth 32)
  writeU32 (mtimerBase + mtimeHighAddrOfs) ((cnt >>> 32).setWidth 32)

def reset : Driver Unit := do
  writeU32 (mtimerBase + mtimeCtrlAddrOfs) 0
  writeU32 (mtimerBase + mtimeLowAddrOfs) 0
  writeU32 (mtimerBase + mtimeHighAddrOfs) 0
  writeU32 (mtimerBase + mtimecmpLowAddrOfs) (BitVec.allOnes 32)
  writeU32 (mtimerBase + mtimecmpHighAddrOfs) (BitVec.allOnes 32)

def cmp : Driver (BitVec 64) := do
  let hi ← readU32 (mtimerBase + mtimecmpHighAddrOfs)
  let lo ← readU32 (mtimerBase + mtimecmpLowAddrOfs)
  return hi.setWidth 64 <<< 32 ||| lo.setWidth 64

def setCmp (cmp : BitVec 64) : Driver Unit := do
  writeU32 (mtimerBase + mtimecmpLowAddrOfs) (BitVec.allOnes 32)
  writeU32 (mtimerBase + mtimecmpHighAddrOfs) ((cmp >>> 32).setWidth 32)
  writeU32 (mtimerBase + mtimecmpLowAddrOfs) (cmp.setWidth 32)

end MTimer

namespace MTimerLo

def enableWithPrescaler (prescaler : BitVec 32) : Driver Unit :=
  MTimer.enableWithPrescaler prescaler

def enable : Driver Unit := MTimer.enable

def disable : Driver Unit := MTimer.disable

def counter : Driver (BitVec 32) := readU32 (mtimerBase + mtimeLowAddrOfs)

def setCounter (cnt : BitVec 32) : Driver Unit := writeU32 (mtimerBase + mtimeLowAddrOfs) cnt

def reset : Driver Unit := MTimer.reset

def cmp : Driver (BitVec 32) := readU32 (mtimerBase + mtimecmpLowAddrOfs)

def setCmp (cmp : BitVec 32) : Driver Unit := do
  writeU32 (mtimerBase + mtimecmpLowAddrOfs) (BitVec.allOnes 32)
  writeU32 (mtimerBase + mtimecmpHighAddrOfs) 0x0
  writeU32 (mtimerBase + mtimecmpLowAddrOfs) cmp

end MTimerLo

def mtimerBus : Bus ApbIn Output (BitVec 32) (BitVec 32) := apbBus Output.toApbOut

theorem register_read {state : State} {bus : ApbIn} {addr : BitVec 32} {reg : Register}
    (selected : register (addr.extractLsb' 2 3) = reg) (reading : mtimerBus.reads addr bus) :
    mtimerBus.data (out state bus) = word state reg := by
  obtain ⟨_, enabled, notWrite, rfl⟩ := reading
  have shown := prdata_of_reads state bus (by simp [reads, enabled, notWrite])
  exact shown.trans (congrArg (word state) selected)

theorem toNat_append (hi lo : BitVec 32) : (hi ++ lo).toNat = hi.toNat * 2 ^ 32 + lo.toNat := by
  rw [BitVec.toNat_append, ← Nat.shiftLeft_add_eq_or_of_lt lo.isLt, Nat.shiftLeft_eq]

theorem toNat_halves (value : BitVec 64) :
    value.toNat =
      (value.extractLsb' 32 32).toNat * 2 ^ 32 + (value.extractLsb' 0 32).toNat := by
  rw [← toNat_append, halves_append]

theorem words_append (cmp : BitVec 64) : (cmp >>> 32).setWidth 32 ++ cmp.setWidth 32 = cmp := by
  rw [BitVec.setWidth_ushiftRight_eq_extractLsb, BitVec.setWidth_eq_extractLsb' (by decide),
    halves_append]

theorem setWidth_append (hi lo : BitVec 32) :
    hi.setWidth 64 <<< 32 ||| lo.setWidth 64 = hi ++ lo := by
  apply BitVec.eq_of_getLsbD_eq
  intro bit within
  rw [BitVec.getLsbD_or, BitVec.getLsbD_shiftLeft, BitVec.getLsbD_setWidth,
    BitVec.getLsbD_setWidth, BitVec.getLsbD_append]
  by_cases low : bit < 32
  · simp [low, within]
  · have above : lo.getLsbD bit = false := BitVec.getLsbD_of_ge lo bit (by omega)
    simp [low, within, above, show bit - 32 < 64 by omega]

theorem zero_append (lo : BitVec 32) : 0#32 ++ lo = lo.setWidth 64 := by
  apply BitVec.eq_of_toNat_eq
  rw [toNat_append, BitVec.toNat_setWidth, Nat.mod_eq_of_lt (by omega)]
  simp

/-! Setting the compare value -/

def writesCompare (bus : ApbIn) : Prop :=
  writes bus = true ∧
    (register (intAddr bus) = .mTimeCmpLow ∨ register (intAddr bus) = .mTimeCmpHigh)

theorem mtimecmp_kept (state : State) (bus : ApbIn) (other : ¬writesCompare bus) :
    (next state bus).mtimecmpQ = state.mtimecmpQ := by
  cases strobe : writes bus with
  | false => exact (kept_of_quiet state bus strobe).1
  | true =>
      rw [next_of_write state bus strobe]
      split
      · rfl
      · rfl
      · rename_i low
        exact absurd ⟨strobe, Or.inl low⟩ other
      · rename_i high
        exact absurd ⟨strobe, Or.inr high⟩ other
      · rfl
      · rfl

theorem mtimecmp_low (state : State) (data : BitVec 32) :
    (next state (.write (mtimerBase + mtimecmpLowAddrOfs) data)).mtimecmpQ =
      state.mtimecmpQ.extractLsb' 32 32 ++ data := by
  have selected : register ((mtimerBase + mtimecmpLowAddrOfs).extractLsb' 2 3) = .mTimeCmpLow := by
    decide
  rw [next_of_write state _ rfl, intAddr, ApbIn.write, selected]

theorem mtimecmp_high (state : State) (data : BitVec 32) :
    (next state (.write (mtimerBase + mtimecmpHighAddrOfs) data)).mtimecmpQ =
      data ++ state.mtimecmpQ.extractLsb' 0 32 := by
  have selected : register ((mtimerBase + mtimecmpHighAddrOfs).extractLsb' 2 3) =
      .mTimeCmpHigh := by
    decide
  rw [next_of_write state _ rfl, intAddr, ApbIn.write, selected]

theorem compare_stable {bound : Nat} (value : BitVec 64) (enough : bound ≤ value.toNat) :
    Stable circuit (fun bus => ¬writesCompare bus) (fun state => bound ≤ state.mtimecmpQ.toNat)
      (fun state => state.mtimecmpQ = value) where
  kept state bus other same := (mtimecmp_kept state bus other).trans same
  safe _ same := same ▸ enough

def setHalves (hi lo : BitVec 32) : Driver Unit := do
  writeU32 (mtimerBase + mtimecmpLowAddrOfs) (BitVec.allOnes 32)
  writeU32 (mtimerBase + mtimecmpHighAddrOfs) hi
  writeU32 (mtimerBase + mtimecmpLowAddrOfs) lo

/-- With the low half at its maximum in between, the register is never below both the old and
the new value. -/
theorem setHalves_triple (old : BitVec 64) (hi lo : BitVec 32) :
    Triple circuit mtimerBus (fun bus => ¬writesCompare bus)
      (fun state => min old.toNat (hi ++ lo).toNat ≤ state.mtimecmpQ.toNat)
      (fun state => state.mtimecmpQ = old) (setHalves hi lo)
      (fun _ state => state.mtimecmpQ = hi ++ lo) := by
  have oldHalves := toNat_halves old
  have oldLow := (old.extractLsb' 0 32).isLt
  have newLow := lo.isLt
  have raised := toNat_append (old.extractLsb' 32 32) (BitVec.allOnes 32)
  have switched := toNat_append hi (BitVec.allOnes 32)
  have lowered := toNat_append hi lo
  have full : (BitVec.allOnes 32).toNat = 2 ^ 32 - 1 := rfl
  refine Triple.write (compare_stable old (by omega)) ?_
    (Triple.write (compare_stable (old.extractLsb' 32 32 ++ BitVec.allOnes 32) (by omega)) ?_
      (Triple.write (compare_stable (hi ++ BitVec.allOnes 32) (by omega)) ?_
        (Triple.done (compare_stable (hi ++ lo) (by omega)) fun _ ends => ends)))
  · rintro state _ rfl rfl
    exact mtimecmp_low state _
  · rintro state _ rfl holds
    refine (mtimecmp_high state _).trans ?_
    rw [holds, BitVec.extractLsb'_append_eq_right]
  · rintro state _ rfl holds
    refine (mtimecmp_low state _).trans ?_
    rw [holds, BitVec.extractLsb'_append_eq_left]

/-- From cycle `first` on the interrupt line is high only if the count has reached the compare
value of that cycle or `cmp`, which the register holds in the end. -/
def NoSpuriousIrq (start : State) (bus : Nat → ApbIn) (first last : Nat) (cmp : BitVec 64) :
    Prop :=
  (∀ cycle, first ≤ cycle → cycle ≤ last → (circuit.outFrom start bus cycle).timerIrq = true →
    min (circuit.runFrom start bus first).mtimecmpQ.toNat cmp.toNat ≤
      (circuit.runFrom start bus cycle).mtimeQ.toNat) ∧
  (circuit.runFrom start bus last).mtimecmpQ = cmp

theorem setHalves_no_spurious_irq {start : State} {bus : Nat → ApbIn} {first last : Nat}
    {accesses : List Nat} {hi lo : BitVec 32}
    (performs : Performs circuit mtimerBus (fun bus => ¬writesCompare bus) start bus
      (setHalves hi lo) first accesses last ()) :
    NoSpuriousIrq start bus first last (hi ++ lo) := by
  obtain ⟨above, ends⟩ := setHalves_triple _ hi lo start bus first accesses last () performs rfl
  refine ⟨fun cycle later sooner irq => ?_, ends⟩
  exact le_trans (above cycle later sooner) (BitVec.le_def.mp ((timerIrq_iff _).mp irq).2)

/-- Reprogramming the compare value raises no spurious interrupt, in any run in which nothing
else writes the compare register meanwhile. -/
theorem set_cmp_no_spurious_irq (start : State) (bus : Nat → ApbIn) (first last : Nat)
    (accesses : List Nat) :
    (∀ cmp, Performs circuit mtimerBus (fun bus => ¬writesCompare bus) start bus
        (MTimer.setCmp cmp) first accesses last () → NoSpuriousIrq start bus first last cmp) ∧
    (∀ cmp, Performs circuit mtimerBus (fun bus => ¬writesCompare bus) start bus
        (MTimerLo.setCmp cmp) first accesses last () →
      NoSpuriousIrq start bus first last (cmp.setWidth 64)) := by
  constructor
  · intro cmp performs
    rw [← words_append cmp]
    exact setHalves_no_spurious_irq performs
  · intro cmp performs
    rw [← zero_append]
    exact setHalves_no_spurious_irq performs

def reprogram (cycle : Nat) : ApbIn :=
  if cycle = 1 then .write (mtimerBase + mtimecmpLowAddrOfs) (BitVec.allOnes 32)
  else if cycle = 4 then .write (mtimerBase + mtimecmpHighAddrOfs) 1
  else if cycle = 6 then .write (mtimerBase + mtimecmpLowAddrOfs) 2
  else .idle

theorem idle_not_writesCompare : ¬writesCompare .idle := by
  rintro ⟨strobe, _⟩
  cases strobe

theorem reprogram_performs :
    Performs circuit mtimerBus (fun bus => ¬writesCompare bus) (started 0x1) reprogram
      (MTimer.setCmp 0x100000002) 0 [1, 4, 6] 8 () := by
  have idle := idle_not_writesCompare
  refine .wait idle (.write rfl (.wait idle (.wait idle (.write rfl (.wait idle (.write rfl
    (.wait idle (.done () 8))))))))

theorem set_cmp_no_spurious_irq_reprogram :
    NoSpuriousIrq (started 0x1) reprogram 0 8 0x100000002 :=
  (set_cmp_no_spurious_irq (started 0x1) reprogram 0 8 [1, 4, 6]).1 _ reprogram_performs

end Atalanta.Bsp
