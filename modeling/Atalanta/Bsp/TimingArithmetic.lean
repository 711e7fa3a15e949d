import Atalanta.Bsp.OneShot
import Atalanta.Bsp.TimerGroup
import Atalanta.Bsp.UartInit

/-! The arithmetic of the four routines that scale by the divider of the peripheral clock. -/

namespace Atalanta.Bsp

open BusProgram

inductive TimingCall
  | init (base freq baud : BitVec 32)
  | start (overflowChecks : Bool) (duration : BitVec 64)
  | setPeriod (timer duration : BitVec 32)
  | setPeriodOffset (debugAssertions : Bool) (timer period offset : BitVec 32)

def TimingCall.driver : TimingCall → Driver (Except Panic Unit)
  | .init base freq baud => ApbUartHal.init base freq baud
  | .start overflowChecks duration => OneShot.start overflowChecks duration
  | .setPeriod timer duration => Periodic.setPeriod timer duration
  | .setPeriodOffset debugAssertions timer period offset =>
    Periodic.setPeriodOffset timer debugAssertions period offset

-- the first word that any of the routines reads is the divider; in `start` the next two are the
-- counter
def answering (div : BitVec 4) (words : Nat → BitVec 32) : Nat → BitVec 32
  | 0 => div.setWidth 32
  | read + 1 => words read

def TimingCall.run (call : TimingCall) (div : BitVec 4) (words : Nat → BitVec 32) :
    Except Panic Unit × Recorded (BitVec 32) (BitVec 32) :=
  call.driver.exec (recorder (answering div words)) .none

/-- The device has been given the exact quotient or sum. -/
def TimingCall.Stored (div : BitVec 4) (words : Nat → BitVec 32)
    (written : BitVec 32 → Option (BitVec 32)) : TimingCall → Prop
  | .init base freq baud =>
    ∃ lo hi, written (base + uartDlabLsbOfs) = some lo ∧ written (base + uartDlabMsbOfs) = some hi ∧
      (hi.setWidth 8 ++ lo.setWidth 8 : BitVec 16).toNat =
        freq.toNat / div.toNat / (16 * baud.toNat)
  | .start _ duration =>
    ∃ lo hi, written (mtimerBase + mtimecmpLowAddrOfs) = some lo ∧
      written (mtimerBase + mtimecmpHighAddrOfs) = some hi ∧
      (hi ++ lo).toNat = (words 0 ++ words 1).toNat + duration.toNat / div.toNat
  | .setPeriod timer duration =>
    ∃ cmp, written (timer + timerCmpOfs) = some cmp ∧ cmp.toNat = duration.toNat / div.toNat
  | .setPeriodOffset _ timer period offset =>
    (∃ cmp, written (timer + timerCmpOfs) = some cmp ∧ cmp.toNat = period.toNat / div.toNat) ∧
      ∀ cnt ∈ written (timer + timerCntOfs), cnt.toNat = offset.toNat / div.toNat

def TimingCall.ExactProduct : TimingCall → Prop
  | .init _ _ baud => (baud <<< 4).toNat = 16 * baud.toNat
  | _ => True

structure TimingCall.Lossless (call : TimingCall) (div : BitVec 4) (words : Nat → BitVec 32) :
    Prop where
  noDivisionByZero : (call.run div words).1 ≠ .error .divisionByZero
  noOverflow : (call.run div words).1 ≠ .error .overflow
  product : call.ExactProduct
  stored : call.Stored div words (call.run div words).2.written

def TimingCall.Fits (div : BitVec 4) (words : Nat → BitVec 32) : TimingCall → Prop
  | .init _ freq baud =>
    div ≠ 0 ∧ 16 * baud.toNat < 2 ^ 32 ∧ freq.toNat < 2 ^ 16 * (16 * baud.toNat * div.toNat)
  | .start _ duration =>
    div ≠ 0 ∧ (words 0 ++ words 1).toNat + duration.toNat / div.toNat < 2 ^ 64
  | _ => div ≠ 0

def TimingCall.Positive : TimingCall → Prop
  | .init _ _ baud => baud ≠ 0
  | _ => True

theorem divider_masked (div : BitVec 4) :
    (div.setWidth 32).setWidth 8 &&& 0xf = div.setWidth 8 := by
  revert div
  decide

def dividerRead : Recorded (BitVec 32) (BitVec 32) := ⟨1, fun _ => none⟩

theorem both_stored {written : BitVec 32 → Option (BitVec 32)} {first second lo hi : BitVec 32}
    (low : written first = some lo) (high : written second = some hi)
    (holds : BitVec 32 → BitVec 32 → Prop) :
    (∃ early late, written first = some early ∧ written second = some late ∧ holds early late) ↔
      holds lo hi := by
  simp [low, high]

section Init

variable (base freq baud : BitVec 32)

def closing : Driver Unit := do
  writeU8 (base + uartLcrOfs) UartLcrDataBits.bits8.repr
  unmaskU8 (base + uartLcrOfs) uartLcrDlabBit
  writeU8 (base + uartIirFcrOfs)
    (uartFcrFifoEnBit ||| uartFcrFifoRxResetBit ||| uartFcrFifoTxResetBit ||| uartFcrTrigRxLsb |||
      uartFcrTrigRxMsb)
  writeU8 (base + uartMcrOfs) 0x20

theorem configure_recorded (divisor : BitVec 32) (answers : Nat → BitVec 32) :
    ∃ middle, (ApbUartHal.configure base divisor).exec (recorder answers) dividerRead =
      (do
        writeU8 (base + uartDlabLsbOfs) (divisor.setWidth 8)
        writeU8 (base + uartDlabMsbOfs) ((divisor >>> 8).setWidth 8)
        closing base : Driver Unit).exec (recorder answers) middle :=
  ⟨_, rfl⟩

theorem latches_recorded (divisor : BitVec 32) (answers : Nat → BitVec 32) :
    let written :=
      ((ApbUartHal.configure base divisor).exec (recorder answers) dividerRead).2.written
    written (base + uartDlabLsbOfs) = some ((divisor.setWidth 8).setWidth 32) ∧
      written (base + uartDlabMsbOfs) = some (((divisor >>> 8).setWidth 8).setWidth 32) := by
  obtain ⟨middle, runs⟩ := configure_recorded base divisor answers
  rw [runs]
  constructor
  · refine exec_written answers ?_ _ middle
    have later : (closing base).OnlyWrites fun other _ => other ≠ base + uartDlabLsbOfs :=
      And.intro (offset_ne base (by decide)) fun _ => And.intro (offset_ne base (by decide))
        (And.intro (offset_ne base (by decide)) (And.intro (offset_ne base (by decide)) trivial))
    exact And.intro (offset_ne base (by decide)) later
  · rw [exec_bind]
    refine exec_written answers ?_ _ _
    exact And.intro (offset_ne base (by decide)) fun _ => And.intro (offset_ne base (by decide))
      (And.intro (offset_ne base (by decide)) (And.intro (offset_ne base (by decide)) trivial))

theorem run_init (div : BitVec 4) (words : Nat → BitVec 32) :
    (TimingCall.init base freq baud).run div words =
      (ApbUartHal.initWith base ((checkedDiv freq ((div.setWidth 8).setWidth 32)).bind
        (checkedDiv · (baud <<< 4)))).exec (recorder (answering div words)) dividerRead := by
  rw [← divider_masked div]
  rfl

theorem shifted_toNat : (baud <<< 4).toNat = 16 * baud.toNat ↔ 16 * baud.toNat < 2 ^ 32 := by
  rw [BitVec.toNat_shiftLeft, Nat.shiftLeft_eq]
  omega

theorem latches_fit (divisor : BitVec 32) :
    ((divisor >>> 8).setWidth 8 ++ divisor.setWidth 8 : BitVec 16).toNat = divisor.toNat ↔
      divisor.toNat < 2 ^ 16 := by
  refine ⟨fun same => ?_, latches_toNat divisor⟩
  rw [← same]
  exact BitVec.isLt _

theorem init_stored {div : BitVec 4} (words : Nat → BitVec 32) {divisor : BitVec 32}
    (chosen : (checkedDiv freq ((div.setWidth 8).setWidth 32)).bind (checkedDiv · (baud <<< 4)) =
      .ok divisor) (quotient : divisor.toNat = freq.toNat / div.toNat / (16 * baud.toNat)) :
    (TimingCall.init base freq baud).Stored div words
        ((TimingCall.init base freq baud).run div words).2.written ↔ divisor.toNat < 2 ^ 16 := by
  obtain ⟨low, high⟩ := latches_recorded base divisor (answering div words)
  have runs : ((TimingCall.init base freq baud).run div words).2 =
      ((ApbUartHal.configure base divisor).exec (recorder (answering div words))
        dividerRead).2 := by
    rw [run_init, chosen, ApbUartHal.initWith, orPanic, exec_bind]
    rfl
  rw [runs, ← latches_fit, TimingCall.Stored, both_stored low high, widened_byte, widened_byte,
    quotient]

theorem init_lossless {div : BitVec 4} (divides : div ≠ 0) (words : Nat → BitVec 32)
    (positive : baud ≠ 0) :
    (TimingCall.init base freq baud).Lossless div words ↔
      (TimingCall.init base freq baud).Fits div words := by
  by_cases exact : 16 * baud.toNat < 2 ^ 32
  · have shifted := (shifted_toNat baud).mpr exact
    have large : 0 < baud.toNat := BitVec.toNat_pos_of_ne_zero positive
    have wide : 0 < div.toNat := BitVec.toNat_pos_of_ne_zero divides
    obtain ⟨scaled, divided, quotient⟩ := checkedDiv_widened (by decide : 8 ≤ 32) freq divides
    have nonzero : baud <<< 4 ≠ 0 := by
      intro zero
      rw [zero] at shifted
      change 0 = _ at shifted
      omega
    have chosen : (checkedDiv freq ((div.setWidth 8).setWidth 32)).bind
        (checkedDiv · (baud <<< 4)) = .ok (scaled / baud <<< 4) := by
      rw [divided]
      exact checkedDiv_of_ne scaled nonzero
    have result : ((TimingCall.init base freq baud).run div words).1 = .ok () := by
      rw [run_init, chosen]
      rfl
    have size : (scaled / baud <<< 4).toNat = freq.toNat / div.toNat / (16 * baud.toNat) := by
      rw [BitVec.toNat_udiv, quotient, shifted]
    have stored := init_stored base freq baud words chosen size
    have narrow : (scaled / baud <<< 4).toNat < 2 ^ 16 ↔
        freq.toNat < 2 ^ 16 * (16 * baud.toNat * div.toNat) := by
      rw [size, Nat.div_div_eq_div_mul, Nat.div_lt_iff_lt_mul (by positivity),
        Nat.mul_comm div.toNat]
    constructor
    · intro lossless
      exact ⟨divides, exact, narrow.mp (stored.mp lossless.stored)⟩
    · rintro ⟨_, _, fits⟩
      refine ⟨?_, ?_, shifted, stored.mpr (narrow.mpr fits)⟩ <;> simp [result]
  · refine ⟨fun lossless => absurd ((shifted_toNat baud).mp lossless.product) exact, ?_⟩
    exact fun fits => absurd fits.2.1 exact

end Init

section Start

variable (overflowChecks : Bool) (duration : BitVec 64)

theorem run_start (div : BitVec 4) (words : Nat → BitVec 32) :
    (TimingCall.start overflowChecks duration).run div words =
      (orPanic ((checkedDiv duration ((div.setWidth 8).setWidth 64)).bind
        (checkedAdd overflowChecks (words 0 ++ words 1))) OneShot.arm).exec
          (recorder (answering div words)) ⟨3, fun _ => none⟩ := by
  rw [← divider_masked div, ← setWidth_append]
  rfl

theorem compare_recorded (cmp : BitVec 64) (answers : Nat → BitVec 32)
    (state : Recorded (BitVec 32) (BitVec 32)) :
    let ended := (OneShot.arm cmp).exec (recorder answers) state
    ended.1 = .ok () ∧
      ended.2.written (mtimerBase + mtimecmpLowAddrOfs) = some (cmp.setWidth 32) ∧
      ended.2.written (mtimerBase + mtimecmpHighAddrOfs) = some ((cmp >>> 32).setWidth 32) :=
  ⟨rfl, rfl, rfl⟩

theorem start_stored {div : BitVec 4} {words : Nat → BitVec 32} {cmp : BitVec 64}
    (chosen : (checkedDiv duration ((div.setWidth 8).setWidth 64)).bind
      (checkedAdd overflowChecks (words 0 ++ words 1)) = .ok cmp) :
    ((TimingCall.start overflowChecks duration).run div words).1 = .ok () ∧
      ((TimingCall.start overflowChecks duration).Stored div words
          ((TimingCall.start overflowChecks duration).run div words).2.written ↔
        cmp.toNat = (words 0 ++ words 1).toNat + duration.toNat / div.toNat) := by
  rw [run_start, chosen]
  obtain ⟨result, low, high⟩ := compare_recorded cmp (answering div words) ⟨3, fun _ => none⟩
  refine ⟨result, ?_⟩
  refine (both_stored low high _).trans ?_
  rw [words_append]

theorem start_lossless {div : BitVec 4} (divides : div ≠ 0) (words : Nat → BitVec 32) :
    (TimingCall.start overflowChecks duration).Lossless div words ↔
      (TimingCall.start overflowChecks duration).Fits div words := by
  obtain ⟨ticks, divided, quotient⟩ := checkedDiv_widened (by decide : 8 ≤ 64) duration divides
  by_cases fits : (words 0 ++ words 1).toNat + ticks.toNat < 2 ^ 64
  · have chosen : (checkedDiv duration ((div.setWidth 8).setWidth 64)).bind
        (checkedAdd overflowChecks (words 0 ++ words 1)) = .ok ((words 0 ++ words 1) + ticks) := by
      rw [divided]
      exact checkedAdd_of_lt overflowChecks fits
    obtain ⟨result, stored⟩ := start_stored overflowChecks duration chosen
    refine ⟨fun _ => ⟨divides, quotient ▸ fits⟩, fun _ => ⟨?_, ?_, trivial, stored.mpr ?_⟩⟩
    · simp [result]
    · simp [result]
    · rw [BitVec.toNat_add_of_lt fits, quotient]
  · refine ⟨fun lossless => ?_, fun within => absurd (quotient ▸ within.2) fits⟩
    cases overflowChecks with
    | true =>
        refine absurd ?_ lossless.noOverflow
        rw [run_start, divided]
        have panics : checkedAdd true (words 0 ++ words 1) ticks = .error .overflow := by
          simp only [checkedAdd, Bool.true_and, decide_eq_true_eq]
          exact if_pos (by omega)
        change ((orPanic (checkedAdd true (words 0 ++ words 1) ticks) OneShot.arm).exec _ _).1 = _
        rw [panics]
        rfl
    | false =>
        have chosen : (checkedDiv duration ((div.setWidth 8).setWidth 64)).bind
            (checkedAdd false (words 0 ++ words 1)) = .ok ((words 0 ++ words 1) + ticks) := by
          rw [divided]
          rfl
        have exact := (start_stored false duration chosen).2.mp lossless.stored
        have wrapped := ((words 0 ++ words 1) + ticks).isLt
        rw [exact, ← quotient] at wrapped
        exact absurd wrapped fits

end Start

section Periodic

variable (timer : BitVec 32)

theorem run_setPeriod (duration : BitVec 32) (div : BitVec 4) (words : Nat → BitVec 32) :
    (TimingCall.setPeriod timer duration).run div words =
      (orPanic (checkedDiv duration ((div.setWidth 8).setWidth 32)) fun cmp => do
        Timer.setCmp timer cmp
        return .ok ()).exec (recorder (answering div words)) dividerRead := by
  rw [← divider_masked div]
  rfl

theorem setPeriod_lossless (duration : BitVec 32) {div : BitVec 4} (divides : div ≠ 0)
    (words : Nat → BitVec 32) : (TimingCall.setPeriod timer duration).Lossless div words := by
  obtain ⟨cmp, divided, quotient⟩ := checkedDiv_widened (by decide : 8 ≤ 32) duration divides
  have runs := run_setPeriod timer duration div words
  rw [divided] at runs
  have result : ((TimingCall.setPeriod timer duration).run div words).1 = .ok () := by
    rw [runs]
    rfl
  refine ⟨by simp [result], by simp [result], trivial, ?_⟩
  rw [runs]
  exact ⟨cmp, if_pos rfl, quotient⟩

theorem run_setPeriodOffset (debugAssertions : Bool) (period offset : BitVec 32) (div : BitVec 4)
    (words : Nat → BitVec 32) :
    (TimingCall.setPeriodOffset debugAssertions timer period offset).run div words =
      (orPanic (checkedDiv period ((div.setWidth 8).setWidth 32)) fun cmp => do
        Timer.setCmp timer cmp
        orPanic (checkedDiv offset ((div.setWidth 8).setWidth 32)) fun cnt =>
          Timer.setCounter timer debugAssertions cnt).exec (recorder (answering div words))
        dividerRead := by
  rw [← divider_masked div]
  rfl

theorem setCounter_recorded (debugAssertions : Bool) (cnt : BitVec 32)
    (answers : Nat → BitVec 32) (state : Recorded (BitVec 32) (BitVec 32))
    (fresh : state.written (timer + timerCntOfs) = none) :
    let ended := (Timer.setCounter timer debugAssertions cnt).exec (recorder answers) state
    (ended.1 = .ok () ∨ ended.1 = .error .assertion) ∧
      ended.2.written (timer + timerCmpOfs) = state.written (timer + timerCmpOfs) ∧
      ∀ stored ∈ ended.2.written (timer + timerCntOfs), stored = cnt := by
  have apart : timer + timerCmpOfs ≠ timer + timerCntOfs := offset_ne timer (by decide)
  have stores : ∀ stored ∈ (if timer + timerCntOfs = timer + timerCntOfs then some cnt
      else state.written (timer + timerCntOfs)), stored = cnt := by
    intro stored member
    rw [if_pos rfl] at member
    exact (Option.some.inj member).symm
  cases debugAssertions with
  | false => exact ⟨.inl rfl, if_neg apart, stores⟩
  | true =>
      obtain ⟨middle, runs⟩ : ∃ cmp, (Timer.setCounter timer true cnt).exec (recorder answers)
          state = (if cnt ≤ cmp then do
              writeU32 (timer + timerCntOfs) cnt
              return .ok ()
            else return .error .assertion : Driver (Except Panic Unit)).exec (recorder answers)
          { state with reads := state.reads + 1 } := ⟨_, rfl⟩
      rw [runs]
      split
      · exact ⟨.inl rfl, if_neg apart, stores⟩
      · refine ⟨.inr rfl, rfl, fun stored member => ?_⟩
        change state.written (timer + timerCntOfs) = some stored at member
        rw [fresh] at member
        cases member

theorem setPeriodOffset_lossless (debugAssertions : Bool) (period offset : BitVec 32)
    {div : BitVec 4} (divides : div ≠ 0) (words : Nat → BitVec 32) :
    (TimingCall.setPeriodOffset debugAssertions timer period offset).Lossless div words := by
  obtain ⟨cmp, dividedPeriod, quotient⟩ := checkedDiv_widened (by decide : 8 ≤ 32) period divides
  obtain ⟨cnt, dividedOffset, remaining⟩ := checkedDiv_widened (by decide : 8 ≤ 32) offset divides
  have apart : timer + timerCntOfs ≠ timer + timerCmpOfs := offset_ne timer (by decide)
  have runs := run_setPeriodOffset timer debugAssertions period offset div words
  rw [dividedPeriod, dividedOffset] at runs
  obtain ⟨result, kept, counted⟩ := setCounter_recorded timer debugAssertions cnt
    (answering div words) ((recorder (answering div words)).write dividerRead
      (timer + timerCmpOfs) cmp) (if_neg apart)
  change _ = (Timer.setCounter timer debugAssertions cnt).exec _ _ at runs
  rw [← runs] at result kept counted
  have stops : ∀ panic, panic ≠ .assertion →
      ((TimingCall.setPeriodOffset debugAssertions timer period offset).run div words).1 ≠
        .error panic := by
    intro panic other
    rcases result with result | result
    · simp [result]
    · simp [result, other.symm]
  refine ⟨stops _ (by decide), stops _ (by decide), trivial, ?_, ?_⟩
  · exact ⟨cmp, kept.trans (if_pos rfl), quotient⟩
  · intro stored member
    rw [counted stored member]
    exact remaining

end Periodic

/-- Each of the routines divides by the divider before it writes anything. -/
theorem run_zero (call : TimingCall) (words : Nat → BitVec 32) :
    (call.run 0 words).1 = .error .divisionByZero := by
  cases call with
  | init base freq baud =>
      rw [run_init]
      rfl
  | start overflowChecks duration =>
      rw [run_start]
      rfl
  | setPeriod timer duration =>
      rw [run_setPeriod]
      rfl
  | setPeriodOffset debugAssertions timer period offset =>
      rw [run_setPeriodOffset]
      rfl

theorem TimingCall.Lossless.divides {call : TimingCall} {div : BitVec 4} {words : Nat → BitVec 32}
    (lossless : call.Lossless div words) : div ≠ 0 := by
  rintro rfl
  exact lossless.noDivisionByZero (run_zero call words)

theorem TimingCall.Fits.divides {call : TimingCall} {div : BitVec 4} {words : Nat → BitVec 32}
    (fits : call.Fits div words) : div ≠ 0 := by
  cases call with
  | init base freq baud => exact fits.1
  | start overflowChecks duration => exact fits.1
  | setPeriod timer duration => exact fits
  | setPeriodOffset debugAssertions timer period offset => exact fits

/-- The arithmetic is total and lossless exactly if the divider is not 0 and the quotients and
sums fit. -/
theorem lossless_iff (call : TimingCall) (div : BitVec 4) (words : Nat → BitVec 32)
    (positive : call.Positive) : call.Lossless div words ↔ call.Fits div words := by
  by_cases divides : div = 0
  · exact ⟨fun lossless => absurd divides lossless.divides, fun fits => absurd divides fits.divides⟩
  cases call with
  | init base freq baud => exact init_lossless base freq baud divides words positive
  | start overflowChecks duration => exact start_lossless overflowChecks duration divides words
  | setPeriod timer duration =>
      exact ⟨fun _ => divides, fun _ => setPeriod_lossless timer duration divides words⟩
  | setPeriodOffset debugAssertions timer period offset =>
      refine ⟨fun _ => divides, fun _ => ?_⟩
      exact setPeriodOffset_lossless timer debugAssertions period offset divides words

-- 100 MHz over 16 * 115200
theorem init_lossless_115200 :
    (TimingCall.init uartBase 100000000 115200).Lossless 1 (fun _ => 0) := by
  refine (lossless_iff (.init uartBase 100000000 115200) 1 (fun _ => 0) ?_).mpr ?_
  · change (115200 : BitVec 32) ≠ 0
    decide
  · exact ⟨by decide, by decide, by decide⟩

/-- Software can store every divider, and reads back what it has stored. -/
theorem divider_storable (div : BitVec 4) :
    (ApbCfgRegs.circuit RtPeripherals.clkDivDef).Reachable ⟨div⟩ ∧
      (ApbCfgRegs.out ⟨div⟩ (.read (cfgBase + periphClkDivOfs))).prdata = div.setWidth 32 := by
  refine ⟨?_, rfl⟩
  have stored : ApbCfgRegs.next (ApbCfgRegs.circuit RtPeripherals.clkDivDef).reset
      (.write (cfgBase + periphClkDivOfs) (div.setWidth 32)) = ⟨div⟩ := by
    revert div
    decide
  rw [← stored]
  exact .next _ .reset

/-- A divider of 0 can be stored, and the next period that is set divides by it. -/
theorem setPeriod_divides_by_zero :
    (ApbCfgRegs.circuit RtPeripherals.clkDivDef).Reachable ⟨0⟩ ∧
      (ApbCfgRegs.out ⟨0⟩ (.read (cfgBase + periphClkDivOfs))).prdata = 0 ∧
      ((TimingCall.setPeriod apbTimerBase 100).run 0 (fun _ => 0)).1 = .error .divisionByZero ∧
      ¬(TimingCall.setPeriod apbTimerBase 100).Lossless 0 (fun _ => 0) := by
  obtain ⟨reachable, shown⟩ := divider_storable 0
  exact ⟨reachable, shown, rfl, fun lossless => lossless.noDivisionByZero rfl⟩

end Atalanta.Bsp
