import Atalanta.ApbMtimer.Core
import Mathlib.Data.Nat.ModEq

/-! Time keeping of `apb_mtimer`: what one cycle does, the closed form of the count
over a window without writes, and what a write to another register does to it. -/

namespace Atalanta.ApbMtimer

open Clocked

theorem halves_append (value : BitVec 64) :
    value.extractLsb' 32 32 ++ value.extractLsb' 0 32 = value := by
  rw [BitVec.extractLsb'_append_extractLsb'_eq_extractLsb' (by omega)]
  simp

@[simp] theorem low_append (hi lo : BitVec 32) : (hi ++ lo).extractLsb' 0 32 = lo :=
  BitVec.extractLsb'_append_eq_right

@[simp] theorem high_append (hi lo : BitVec 32) : (hi ++ lo).extractLsb' 32 32 = hi :=
  BitVec.extractLsb'_append_eq_left

theorem next_of_quiet (state : State) (bus : ApbIn) (quiet : writes bus = false) :
    next state bus =
      if state.enableQ then
        if state.counterQ = state.prescalerQ then
          { state with mtimeQ := state.mtimeQ + 1, counterQ := 0 }
        else { state with counterQ := state.counterQ + 1 }
      else { state with counterQ := 0 } := by
  have registers : (apbAccess state bus).mtimecmpHi ++ (apbAccess state bus).mtimecmpLo =
      state.mtimecmpQ ∧ (apbAccess state bus).prescalerD = state.prescalerQ ∧
      (apbAccess state bus).enableD = state.enableQ := by
    cases enabled : bus.penable with
    | false => simp [apbAccess, idleAccess, enabled, halves_append]
    | true =>
        have reading : bus.pwrite = false := by simpa [writes, enabled] using quiet
        simp only [apbAccess, enabled, reading, if_true, Bool.false_eq_true, if_false]
        split <;> simp [idleAccess, halves_append]
  have noWrite : (bus.penable && bus.pwrite) = false := quiet
  obtain ⟨compare, prescaler, enable⟩ := registers
  simp only [next, tick, noWrite, compare, prescaler, enable, Bool.false_eq_true, if_false]
  split
  · split <;> rfl
  · rfl

theorem kept_of_quiet (state : State) (bus : ApbIn) (quiet : writes bus = false) :
    (next state bus).mtimecmpQ = state.mtimecmpQ ∧
      (next state bus).prescalerQ = state.prescalerQ ∧
      (next state bus).enableQ = state.enableQ := by
  rw [next_of_quiet state bus quiet]
  split
  · split <;> exact ⟨rfl, rfl, rfl⟩
  · exact ⟨rfl, rfl, rfl⟩

theorem next_of_write (state : State) (bus : ApbIn) (writing : writes bus = true) :
    next state bus =
      match register (intAddr bus) with
      | .mTimeLow =>
        { state with mtimeQ := state.mtimeQ.extractLsb' 32 32 ++ bus.pwdata, counterQ := 0 }
      | .mTimeHigh =>
        { state with mtimeQ := bus.pwdata ++ state.mtimeQ.extractLsb' 0 32, counterQ := 0 }
      | .mTimeCmpLow =>
        { state with mtimecmpQ := state.mtimecmpQ.extractLsb' 32 32 ++ bus.pwdata, counterQ := 0 }
      | .mTimeCmpHigh =>
        { state with mtimecmpQ := bus.pwdata ++ state.mtimecmpQ.extractLsb' 0 32, counterQ := 0 }
      | .ctrl =>
        { state with
          enableQ := bus.pwdata.getLsbD 0
          prescalerQ := bus.pwdata.extractLsb' 8 3
          counterQ := 0 }
      | .unimplemented => { state with counterQ := 0 } := by
  simp only [writes, Bool.and_eq_true] at writing
  simp only [next, tick, apbAccess, writing.1, writing.2, if_true, Bool.and_self]
  cases register (intAddr bus) <;> simp [idleAccess, halves_append]

theorem prdata_of_reads (state : State) (bus : ApbIn) (reading : reads bus = true) :
    (out state bus).prdata = word state (register (intAddr bus)) := by
  simp only [reads, Bool.and_eq_true, Bool.not_eq_true'] at reading
  simp only [out, apbAccess, reading.1, reading.2, if_true, Bool.false_eq_true, if_false]
  cases register (intAddr bus) <;> rfl

/-- A cycle in which no register of the timer is written. -/
def Untouched (bus : ApbIn) : Prop :=
  writes bus = true → register (intAddr bus) = .unimplemented

theorem Untouched.enable_kept {bus : ApbIn} (untouched : Untouched bus) (state : State) :
    (next state bus).enableQ = state.enableQ := by
  cases strobe : writes bus with
  | false => exact (kept_of_quiet state bus strobe).2.2
  | true => rw [next_of_write state bus strobe, untouched strobe]

theorem untouched_of_quiet {bus : ApbIn} (quiet : writes bus = false) : Untouched bus := by
  intro strobe
  rw [quiet] at strobe
  cases strobe

def PhaseBound (state : State) : Prop := state.counterQ ≤ state.prescalerQ

theorem next_phaseBound (state : State) (bus : ApbIn) (bound : PhaseBound state) :
    PhaseBound (next state bus) := by
  unfold PhaseBound at *
  cases writing : writes bus with
  | false =>
      rw [next_of_quiet state bus writing]
      split
      · split
        · exact BitVec.le_def.mpr (Nat.zero_le _)
        · rename_i different
          change state.counterQ + 1 ≤ state.prescalerQ
          bv_omega
      · exact BitVec.le_def.mpr (Nat.zero_le _)
  | true =>
      rw [next_of_write state bus writing]
      split <;> exact BitVec.le_def.mpr (Nat.zero_le _)

theorem reachable_phaseBound {state : State} (reached : circuit.Reachable state) :
    PhaseBound state :=
  reached.invariant PhaseBound (BitVec.le_def.mpr (Nat.zero_le _)) next_phaseBound

theorem count_wraps {count period : Nat} (wraps : count % (period + 1) = period) :
    (count + 1) / (period + 1) = count / (period + 1) + 1 ∧ (count + 1) % (period + 1) = 0 := by
  have total := Nat.div_add_mod count (period + 1)
  have next : count + 1 = (period + 1) * (count / (period + 1) + 1) := by
    rw [Nat.mul_add]
    omega
  constructor
  · conv_lhs => rw [next]
    exact Nat.mul_div_cancel_left _ (Nat.succ_pos period)
  · rw [next]
    exact Nat.mul_mod_right _ _

theorem count_advances {count period : Nat} (short : count % (period + 1) ≠ period) :
    (count + 1) / (period + 1) = count / (period + 1) ∧
      (count + 1) % (period + 1) = count % (period + 1) + 1 := by
  have below : count % (period + 1) < period + 1 := Nat.mod_lt _ (by omega)
  have total := Nat.div_add_mod count (period + 1)
  have next : count + 1 = (count % (period + 1) + 1) + (period + 1) * (count / (period + 1)) := by
    omega
  constructor
  · rw [next, Nat.add_mul_div_left _ _ (Nat.succ_pos period), Nat.div_eq_of_lt (by omega)]
    omega
  · conv_lhs => rw [next]
    rw [Nat.add_mul_mod_self_left, Nat.mod_eq_of_lt (by omega)]

def elapsed (start : State) (cycles : Nat) : BitVec 64 :=
  if start.enableQ then
    start.mtimeQ +
      BitVec.ofNat 64 ((start.counterQ.toNat + cycles) / (start.prescalerQ.toNat + 1))
  else start.mtimeQ

structure Window (start : State) (cycles : Nat) (state : State) : Prop where
  mtime : state.mtimeQ = elapsed start cycles
  mtimecmp : state.mtimecmpQ = start.mtimecmpQ
  prescaler : state.prescalerQ = start.prescalerQ
  enable : state.enableQ = start.enableQ
  phase : start.enableQ = true →
    state.counterQ.toNat = (start.counterQ.toNat + cycles) % (start.prescalerQ.toNat + 1)

theorem window_start (start : State) (bound : PhaseBound start) : Window start 0 start := by
  have below : start.counterQ.toNat < start.prescalerQ.toNat + 1 :=
    Nat.lt_succ_of_le (BitVec.le_def.mp bound)
  refine ⟨?_, rfl, rfl, rfl, ?_⟩
  · simp [elapsed, Nat.div_eq_of_lt below]
  · intro _
    simp [Nat.mod_eq_of_lt below]

theorem Window.next {start : State} {cycles : Nat} {state : State}
    (window : Window start cycles state) (bus : ApbIn) (quiet : writes bus = false) :
    Window start (cycles + 1) (next state bus) := by
  rw [next_of_quiet state bus quiet]
  obtain ⟨mtime, mtimecmp, prescaler, enable, phase⟩ := window
  cases running : start.enableQ with
  | false =>
      rw [running] at enable
      simp only [enable, Bool.false_eq_true, if_false]
      refine ⟨?_, mtimecmp, prescaler, by simp [running], by simp [running]⟩
      simpa [elapsed, running] using mtime
  | true =>
      rw [running] at enable
      have count := phase running
      simp only [enable, if_true]
      simp only [elapsed, running, if_true] at mtime
      by_cases due : state.counterQ = state.prescalerQ
      · have wraps : (start.counterQ.toNat + cycles) % (start.prescalerQ.toNat + 1) =
            start.prescalerQ.toNat := by
          rw [← count, due, prescaler]
        have advance := count_wraps wraps
        simp only [due, if_true]
        refine ⟨?_, mtimecmp, prescaler, by simp [running], ?_⟩
        · simp only [elapsed, running, if_true, ← Nat.add_assoc, advance.1, mtime,
            BitVec.ofNat_add, BitVec.add_assoc]
          rfl
        · intro _
          simp [← Nat.add_assoc, advance.2]
      · have short : (start.counterQ.toNat + cycles) % (start.prescalerQ.toNat + 1) ≠
            start.prescalerQ.toNat := by
          rw [← count, ← prescaler]
          exact fun equal => due (BitVec.eq_of_toNat_eq equal)
        have advance := count_advances short
        have below : (start.counterQ.toNat + cycles) % (start.prescalerQ.toNat + 1) <
            start.prescalerQ.toNat + 1 := Nat.mod_lt _ (by omega)
        have narrow := start.prescalerQ.isLt
        simp only [due, if_false]
        refine ⟨?_, mtimecmp, prescaler, by simp [running], ?_⟩
        · simpa only [elapsed, running, if_true, ← Nat.add_assoc, advance.1] using mtime
        · intro _
          rw [← Nat.add_assoc, advance.2, ← count]
          have room : state.counterQ.toNat + 1 < 2 ^ 3 := by omega
          rw [BitVec.toNat_add, Nat.mod_eq_of_lt (by simpa using room)]
          rfl

theorem runFrom_window (start : State) (bound : PhaseBound start) (bus : Nat → ApbIn)
    (cycles : Nat) (quiet : ∀ cycle < cycles, writes (bus cycle) = false) :
    Window start cycles (circuit.runFrom start bus cycles) := by
  induction cycles with
  | zero => exact window_start start bound
  | succ cycles ih =>
      exact (ih fun cycle below => quiet cycle (by omega)).next (bus cycles)
        (quiet cycles (by omega))

theorem timerIrq_iff (state : State) :
    timerIrq state = true ↔ state.enableQ = true ∧ state.mtimecmpQ ≤ state.mtimeQ := by
  simp [timerIrq, and_comm]

/-- Over a window without writes the timer counts exactly, and its interrupt line
compares the current count with the compare register in every cycle. -/
theorem window_exact (start : State) (reached : circuit.Reachable start) (bus : Nat → ApbIn)
    (cycles : Nat) (quiet : ∀ cycle < cycles, writes (bus cycle) = false) :
    (circuit.runFrom start bus cycles).mtimeQ =
        (if start.enableQ then
          start.mtimeQ +
            BitVec.ofNat 64 ((start.counterQ.toNat + cycles) / (start.prescalerQ.toNat + 1))
        else start.mtimeQ) ∧
      ∀ cycle < cycles,
        ((circuit.out (circuit.runFrom start bus cycle) (bus cycle)).timerIrq = true ↔
          start.enableQ = true ∧
            start.mtimecmpQ ≤ (circuit.runFrom start bus cycle).mtimeQ) := by
  have bound := reachable_phaseBound reached
  constructor
  · exact (runFrom_window start bound bus cycles quiet).mtime
  · intro cycle below
    have window := runFrom_window start bound bus cycle fun earlier sooner =>
      quiet earlier (by omega)
    change timerIrq _ = true ↔ _
    rw [timerIrq_iff, window.enable, window.mtimecmp]

def started (control : BitVec 32) : State :=
  circuit.next circuit.reset (.write 0x30210 control)

theorem started_reachable (control : BitVec 32) : circuit.Reachable (started control) :=
  .next _ .reset

theorem window_exact_prescaled :
    (circuit.runFrom (started 0x101) (fun _ => .idle) 5).mtimeQ = 2 :=
  (window_exact (started 0x101) (started_reachable 0x101) (fun _ => .idle) 5
    (fun _ _ => rfl)).1.trans (by decide)

/-! Writes to the compare register against the count. -/

structure Timing where
  mtime : BitVec 64
  counter : BitVec 3
  prescaler : BitVec 3
  enable : Bool

def timing (state : State) : Timing :=
  ⟨state.mtimeQ, state.counterQ, state.prescalerQ, state.enableQ⟩

def timeWrite (bus : ApbIn) : Option (Register × BitVec 32) :=
  if writes bus then
    match register (intAddr bus) with
    | .mTimeLow => some (.mTimeLow, bus.pwdata)
    | .mTimeHigh => some (.mTimeHigh, bus.pwdata)
    | .ctrl => some (.ctrl, bus.pwdata)
    | _ => none
  else none

def timingStep (time : Timing) (strobe : Bool) : Option (Register × BitVec 32) → Timing
  | some (.mTimeLow, data) =>
    { time with mtime := time.mtime.extractLsb' 32 32 ++ data, counter := 0 }
  | some (.mTimeHigh, data) =>
    { time with mtime := data ++ time.mtime.extractLsb' 0 32, counter := 0 }
  | some (.ctrl, data) =>
    { time with enable := data.getLsbD 0, prescaler := data.extractLsb' 8 3, counter := 0 }
  | some _ => { time with counter := 0 }
  | none =>
    if strobe then { time with counter := 0 }
    else if time.enable then
      if time.counter = time.prescaler then { time with mtime := time.mtime + 1, counter := 0 }
      else { time with counter := time.counter + 1 }
    else { time with counter := 0 }

theorem timing_next (state : State) (bus : ApbIn) :
    timing (next state bus) = timingStep (timing state) (writes bus) (timeWrite bus) := by
  cases strobe : writes bus with
  | false =>
      rw [next_of_quiet state bus strobe]
      simp only [timeWrite, strobe, Bool.false_eq_true, if_false, timingStep, timing]
      by_cases enabled : state.enableQ = true
      · by_cases due : state.counterQ = state.prescalerQ <;> simp [enabled, due]
      · simp [enabled]
  | true =>
      rw [next_of_write state bus strobe]
      simp only [timeWrite, strobe, if_true]
      cases register (intAddr bus) <;> simp [timingStep, timing]

theorem timingStep_disabled (time : Timing) (left right : Bool) (disabled : time.enable = false) :
    timingStep time left none = timingStep time right none := by
  cases left <;> cases right <;> simp [timingStep, disabled]

theorem timingStep_strobe (time : Timing) (enabled : time.enable = true)
    (bound : time.counter ≤ time.prescaler) :
    (timingStep time true none).mtime ≠ (timingStep time false none).mtime ∨
      (timingStep time true none).counter ≠ (timingStep time false none).counter := by
  by_cases due : time.counter = time.prescaler
  · left
    simp only [timingStep, enabled, due, if_true, Bool.false_eq_true, if_false]
    intro equal
    bv_omega
  · right
    simp only [timingStep, enabled, due, if_true, Bool.false_eq_true, if_false]
    intro equal
    bv_omega

theorem strobe_of_timingStep (time : Timing) (enabled : time.enable = true)
    (bound : time.counter ≤ time.prescaler) {left right : Bool}
    (mtimes : (timingStep time left none).mtime = (timingStep time right none).mtime)
    (counters : (timingStep time left none).counter = (timingStep time right none).counter) :
    left = right := by
  have shows := timingStep_strobe time enabled bound
  cases left <;> cases right
  · rfl
  · exact absurd counters.symm (shows.resolve_left (not_not_intro mtimes.symm))
  · exact absurd counters (shows.resolve_left (not_not_intro mtimes))
  · rfl

theorem timeWrite_quiet {bus : ApbIn} (quiet : writes bus = false) : timeWrite bus = none := by
  simp [timeWrite, quiet]

/-- With the timer enabled, both runs strobe a write in this cycle or neither does. -/
def StrobesAlign (start : State) (left right : Nat → ApbIn) (cycle : Nat) : Prop :=
  (circuit.runFrom start left cycle).enableQ = true → writes (left cycle) = writes (right cycle)

theorem timeWrite_of_lone_strobe {left right : ApbIn} (same : timeWrite left = timeWrite right)
    (differ : writes left ≠ writes right) : timeWrite left = none := by
  cases strobe : writes left with
  | false => exact timeWrite_quiet strobe
  | true =>
      rw [same]
      exact timeWrite_quiet (by simpa [strobe] using differ)

theorem runs_agree (start : State) (left right : Nat → ApbIn)
    (same : ∀ cycle, timeWrite (left cycle) = timeWrite (right cycle)) (last : Nat)
    (aligned : ∀ cycle < last, StrobesAlign start left right cycle) :
    timing (circuit.runFrom start left last) = timing (circuit.runFrom start right last) := by
  refine circuit.lockstep circuit (fun first second => timing first = timing second)
    left right rfl last ?_ last (Nat.le_refl last)
  intro cycle below equal
  change timing (next _ _) = timing (next _ _)
  rw [timing_next, timing_next, ← equal, ← same cycle]
  by_cases strobes : writes (left cycle) = writes (right cycle)
  · rw [strobes]
  · rw [timeWrite_of_lone_strobe (same cycle) strobes]
    apply timingStep_disabled
    cases enabled : (circuit.runFrom start left cycle).enableQ with
    | true => exact absurd (aligned cycle below enabled) strobes
    | false => exact enabled

theorem strobes_of_agreement (start : State) (reached : circuit.Reachable start)
    (left right : Nat → ApbIn)
    (same : ∀ cycle, timeWrite (left cycle) = timeWrite (right cycle))
    (agree : ∀ cycle,
      (circuit.runFrom start left cycle).mtimeQ = (circuit.runFrom start right cycle).mtimeQ ∧
      (circuit.runFrom start left cycle).counterQ = (circuit.runFrom start right cycle).counterQ)
    (cycle : Nat) : StrobesAlign start left right cycle := by
  induction cycle using Nat.strongRecOn with
  | ind cycle ih =>
      intro enabled
      by_contra differ
      have before := runs_agree start left right same cycle ih
      have silent := timeWrite_of_lone_strobe (same cycle) differ
      have bound := reachable_phaseBound (reached.runFrom left cycle)
      have after := agree (cycle + 1)
      rw [circuit.runFrom_succ, circuit.runFrom_succ] at after
      have leftNext := timing_next (circuit.runFrom start left cycle) (left cycle)
      have rightNext := timing_next (circuit.runFrom start right cycle) (right cycle)
      rw [silent] at leftNext
      rw [← before, ← same cycle, silent] at rightNext
      apply differ
      refine strobe_of_timingStep (timing (circuit.runFrom start left cycle)) enabled bound ?_ ?_
      · rw [← leftNext, ← rightNext]
        exact after.1
      · rw [← leftNext, ← rightNext]
        exact after.2

/-- Runs with the same writes to `MTIME` and `CTRL` keep the same time as long as the
strobes of their other writes are aligned while the timer runs, and they agree on
count and prescaler phase in every cycle exactly then. -/
theorem other_writes_aligned (start : State) (reached : circuit.Reachable start)
    (left right : Nat → ApbIn)
    (same : ∀ cycle, timeWrite (left cycle) = timeWrite (right cycle)) :
    ((∀ cycle, StrobesAlign start left right cycle) →
      ∀ cycle, (circuit.runFrom start left cycle).mtimeQ =
        (circuit.runFrom start right cycle).mtimeQ) ∧
    ((∀ cycle,
        (circuit.runFrom start left cycle).mtimeQ =
          (circuit.runFrom start right cycle).mtimeQ ∧
        (circuit.runFrom start left cycle).counterQ =
          (circuit.runFrom start right cycle).counterQ) ↔
      ∀ cycle, StrobesAlign start left right cycle) := by
  have agrees (aligned : ∀ cycle, StrobesAlign start left right cycle) (cycle : Nat) :=
    runs_agree start left right same cycle fun earlier _ => aligned earlier
  refine ⟨fun aligned cycle => congrArg Timing.mtime (agrees aligned cycle), ?_, ?_⟩
  · exact strobes_of_agreement start reached left right same
  · intro aligned cycle
    exact ⟨congrArg Timing.mtime (agrees aligned cycle),
      congrArg Timing.counter (agrees aligned cycle)⟩

def writeOnce (addr data : BitVec 32) : Nat → ApbIn
  | 0 => .write addr data
  | _ + 1 => .idle

theorem timeWrite_writeOnce {addr : BitVec 32} (data : BitVec 32)
    (other : timeWrite (.write addr data) = none) (cycle : Nat) :
    timeWrite (writeOnce addr data cycle) = none := by
  cases cycle with
  | zero => exact other
  | succ cycle => rfl

theorem other_writes_aligned_once :
    (circuit.runFrom (started 0x1) (writeOnce 0x30208 5) 3).mtimeQ =
      (circuit.runFrom (started 0x1) (writeOnce 0x3020C 9) 3).mtimeQ := by
  refine (other_writes_aligned (started 0x1) (started_reachable 0x1) (writeOnce 0x30208 5)
    (writeOnce 0x3020C 9) (fun cycle => ?_)).1 (fun cycle _ => ?_) 3
  · rw [timeWrite_writeOnce 5 (by decide), timeWrite_writeOnce 9 (by decide)]
  · cases cycle <;> rfl

/-- One compare write while the timer runs loses a tick against the idle run. -/
theorem compare_write_loses_tick :
    ¬∀ (start : State) (left right : Nat → ApbIn), circuit.Reachable start →
      (∀ cycle, timeWrite (left cycle) = timeWrite (right cycle)) →
      ∀ cycle, (circuit.runFrom start left cycle).mtimeQ =
        (circuit.runFrom start right cycle).mtimeQ := by
  intro undisturbed
  have equal := undisturbed (started 0x1) (fun _ => .idle) (writeOnce 0x30208 5)
    (started_reachable 0x1) (fun cycle => (timeWrite_writeOnce 5 (by decide) cycle).symm) 1
  exact absurd equal (by decide)

end Atalanta.ApbMtimer
