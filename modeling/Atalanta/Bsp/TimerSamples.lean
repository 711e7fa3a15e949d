import Atalanta.Bsp.OneShot

/-! The example `mtimer_is_monotonic.rs`: each run of its interrupt handler samples the timer and
sets the compare value one interval on. What it prints is left out. -/

namespace Atalanta.Bsp

open ApbMtimer BusProgram

structure Monotonic where
  samples : List (BitVec 64)
  stop : Bool
deriving DecidableEq, Repr

def samplesCapacity : Nat := 8

-- what `main` asserts of the samples: `windows(2).all(|win| win[0] < win[1])`
def increasing : List (BitVec 64) → Bool
  | earlier :: later :: rest => decide (earlier < later) && increasing (later :: rest)
  | _ => true

section Driver

variable (overflowChecks : Bool) (interval : BitVec 64)

-- what `main` does to the timer before it waits
def startSampling : Driver (Except Panic (BitVec 64)) := do
  let counter ← MTimer.counter
  orPanic (checkedAdd overflowChecks counter interval) fun cmp => do
    MTimer.setCmp cmp
    MTimer.enable
    return .ok counter

/-- The handler `MachineTimer`. The list has no capacity of its own: `push` on a full vector fails,
and `unwrap_unchecked` makes that undefined. -/
def machineTimer (state : Monotonic) : Driver (Except Panic Monotonic) := do
  let sample ← MTimer.counter
  let samples := state.samples ++ [sample]
  if samples.length = samplesCapacity then return .ok ⟨samples, true⟩
  else orPanic (checkedAdd overflowChecks sample interval) fun cmp => do
    MTimer.setCmp cmp
    return .ok ⟨samples, state.stop⟩

end Driver

section Cycles

variable (start : State) (bus : Nat → ApbIn)

def compareAt (cycle : Nat) : Nat := (circuit.runFrom start bus cycle).mtimecmpQ.toNat

/-- A rising edge of the interrupt line, which is what `setup_irq` makes the interrupt of. -/
def Rises (cycle : Nat) : Prop :=
  (circuit.outFrom start bus cycle).timerIrq = false ∧
    (circuit.outFrom start bus (cycle + 1)).timerIrq = true

instance (cycle : Nat) : Decidable (Rises start bus cycle) := inferInstanceAs (Decidable (_ ∧ _))

def readAt (hi lo : Nat) : Sample := ⟨hi, lo, sampled start bus hi lo⟩

/-- Since some cycle the line has not risen before the compare value and the enable bit were in
place, and from then on the program has left the timer alone. -/
structure Armed (cmp : BitVec 64) (since armed returned : Nat) : Prop where
  silent : ∀ raised, since ≤ raised → raised + 1 < armed → ¬Rises start bus raised
  passes : Passes Untouched bus armed returned
  enable : (circuit.runFrom start bus armed).enableQ = true
  compare : (circuit.runFrom start bus armed).mtimecmpQ = cmp

/-- Between its first write and its last `set_cmp` keeps the low half at its maximum. -/
structure SetsCompare (cmp : BitVec 64) (first write armed last : Nat) : Prop where
  before : Passes Untouched bus first write
  order : write < armed
  full : ∀ cycle, write < cycle → cycle < armed → compareAt start bus cycle % 2 ^ 32 = 2 ^ 32 - 1
  grows : compareAt start bus first / 2 ^ 32 ≤ cmp.toNat / 2 ^ 32 →
    ∀ cycle, write < cycle → cycle + 1 < armed →
      compareAt start bus cycle ≤ compareAt start bus (cycle + 1)
  enable : ∀ cycle, first ≤ cycle → cycle ≤ armed →
    (circuit.runFrom start bus cycle).enableQ = (circuit.runFrom start bus first).enableQ
  compare : (circuit.runFrom start bus armed).mtimecmpQ = cmp
  after : Passes Untouched bus armed last
  time : Passes (fun bus => ¬writesTime bus) bus first last

end Cycles

section Run

variable {start : State} {bus : Nat → ApbIn} {first last : Nat} {accesses : List Nat}

theorem irq_iff {cycle : Nat} :
    (circuit.outFrom start bus cycle).timerIrq = true ↔
      (circuit.runFrom start bus cycle).enableQ = true ∧
        compareAt start bus cycle ≤ mtimeAt start bus cycle :=
  timerIrq_iff _

theorem compareAt_quiet {early late : Nat} (passes : Passes Untouched bus early late) :
    compareAt start bus late = compareAt start bus early :=
  congrArg BitVec.toNat (counts_of_passes passes).mtimecmp

theorem mtimecmp_low_toNat (state : State) (data : BitVec 32) :
    (next state (.write (mtimerBase + mtimecmpLowAddrOfs) data)).mtimecmpQ.toNat =
      state.mtimecmpQ.toNat / 2 ^ 32 * 2 ^ 32 + data.toNat := by
  rw [mtimecmp_low, toNat_append, high_toNat]

theorem mtimecmp_high_toNat (state : State) (data : BitVec 32) :
    (next state (.write (mtimerBase + mtimecmpHighAddrOfs) data)).mtimecmpQ.toNat =
      data.toNat * 2 ^ 32 + state.mtimecmpQ.toNat % 2 ^ 32 := by
  rw [mtimecmp_high, toNat_append, low_toNat]

theorem enableQ_kept (state : State) (step : ApbIn) (other : ¬writesControl step) :
    (next state step).enableQ = state.enableQ := by
  cases strobe : writes step with
  | false => exact (kept_of_quiet state step strobe).2.2
  | true =>
      rw [next_of_write state step strobe]
      cases addressed : register (intAddr step) with
      | ctrl => exact absurd ⟨strobe, addressed⟩ other
      | _ => rfl

theorem not_writesControl_of_untouched {step : ApbIn} (untouched : Untouched step) :
    ¬writesControl step := by
  rintro ⟨strobe, addressed⟩
  rw [untouched strobe] at addressed
  cases addressed

theorem high_half_toNat (cmp : BitVec 64) :
    ((cmp >>> 32).setWidth 32).toNat = cmp.toNat / 2 ^ 32 := by
  rw [BitVec.toNat_setWidth, BitVec.toNat_ushiftRight, Nat.shiftRight_eq_div_pow]
  exact Nat.mod_eq_of_lt (by omega)

theorem setCmp_others {cmp : BitVec 64}
    (performs : Performs circuit mtimerBus Untouched start bus (MTimer.setCmp cmp) first accesses
      last ()) : Passes (fun step => ¬writesControl step) bus first last := by
  refine (performs.passes (setCmp_control cmp)).mono fun step allowed => ?_
  rcases allowed with untouched | ⟨addr, reads⟩ | ⟨addr, data, other, writes⟩
  · exact not_writesControl_of_untouched untouched
  · exact fun touched => absurd touched.1 (by simp [ApbMtimer.writes, reads.2.2.1])
  · exact writes ▸ other

theorem enable_stays (others : Passes (fun step => ¬writesControl step) bus first last)
    {cycle : Nat} (after : first ≤ cycle) (before : cycle ≤ last) :
    (circuit.runFrom start bus cycle).enableQ = (circuit.runFrom start bus first).enableQ := by
  have steady : ∀ state step, ¬writesControl step →
      state.enableQ = (circuit.runFrom start bus first).enableQ →
      (circuit.next state step).enableQ = (circuit.runFrom start bus first).enableQ :=
    fun state step other same => (enableQ_kept state step other).trans same
  exact others.keeps steady rfl cycle after before

theorem time_untouched {β : Type} {program : Driver β} {value : β}
    (performs : Performs circuit mtimerBus Untouched start bus program first accesses last value)
    (only : program.OnlyWrites fun addr data => ¬writesTime (.write addr data)) :
    Passes (fun bus => ¬writesTime bus) bus first last := by
  refine (performs.passes only).mono fun step cycle => ?_
  rcases cycle with untouched | ⟨addr, reads⟩ | ⟨addr, data, other, writes⟩
  · exact not_writesTime_of_untouched untouched
  · exact not_writesTime_of_reads reads
  · exact writes ▸ other

theorem setCmp_time (cmp : BitVec 64) :
    (MTimer.setCmp cmp).OnlyWrites fun addr data => ¬writesTime (.write addr data) := by
  have low : ¬(register ((mtimerBase + mtimecmpLowAddrOfs).extractLsb' 2 3) = .mTimeLow ∨
      register ((mtimerBase + mtimecmpLowAddrOfs).extractLsb' 2 3) = .mTimeHigh) := by decide
  have high : ¬(register ((mtimerBase + mtimecmpHighAddrOfs).extractLsb' 2 3) = .mTimeLow ∨
      register ((mtimerBase + mtimecmpHighAddrOfs).extractLsb' 2 3) = .mTimeHigh) := by decide
  exact And.intro (low ·.2) (And.intro (high ·.2) (And.intro (low ·.2) trivial))

theorem setCmp_sets {cmp : BitVec 64}
    (performs : Performs circuit mtimerBus Untouched start bus (MTimer.setCmp cmp) first accesses
      last ()) : ∃ write armed, SetsCompare start bus cmp first write armed last := by
  have whole := performs
  obtain ⟨low, _, _, before, writesFull, performs⟩ := performs.of_write
  obtain ⟨high, _, _, between, writesHigh, performs⟩ := performs.of_write
  obtain ⟨low', _, _, between', writesLow, performs⟩ := performs.of_write
  obtain ⟨_, _, after⟩ := performs.of_done
  have atFull : compareAt start bus (low + 1) =
      compareAt start bus low / 2 ^ 32 * 2 ^ 32 + (2 ^ 32 - 1) := by
    rw [compareAt, circuit.runFrom_succ, show bus low = _ from writesFull]
    exact mtimecmp_low_toNat _ _
  have atHigh : compareAt start bus (high + 1) =
      cmp.toNat / 2 ^ 32 * 2 ^ 32 + compareAt start bus high % 2 ^ 32 := by
    rw [compareAt, circuit.runFrom_succ, show bus high = _ from writesHigh]
    refine (mtimecmp_high_toNat _ _).trans ?_
    rw [high_half_toNat]
    rfl
  have quiet : compareAt start bus low = _ := compareAt_quiet before
  have first_half : ∀ cycle, low < cycle → cycle ≤ high →
      compareAt start bus cycle = compareAt start bus (low + 1) := fun cycle above below =>
    compareAt_quiet (between.within (le_refl _) above below)
  have second_half : ∀ cycle, high < cycle → cycle ≤ low' →
      compareAt start bus cycle = compareAt start bus (high + 1) := fun cycle above below =>
    compareAt_quiet (between'.within (le_refl _) above below)
  have order := between.1
  have order' := between'.1
  refine ⟨low, low' + 1, before, by omega, fun cycle above below => ?_,
    fun higher cycle above below => ?_,
    fun cycle above below => enable_stays (setCmp_others whole) above (le_trans below after.1), ?_,
    after, time_untouched whole (setCmp_time cmp)⟩
  · have atEnd := first_half high order (le_refl high)
    by_cases early : cycle ≤ high
    · rw [first_half cycle above early, atFull]
      omega
    · rw [second_half cycle (by omega) (by omega), atHigh, atEnd, atFull]
      omega
  · have atEnd := first_half high order (le_refl high)
    rcases lt_trichotomy cycle high with early | rfl | late
    · rw [first_half cycle above (by omega), first_half (cycle + 1) (by omega) early]
    · omega
    · rw [second_half cycle late (by omega), second_half (cycle + 1) (by omega) (by omega)]
  · have counts : Counts start bus (low' + 1) last := counts_of_passes after
    rw [← counts.mtimecmp, setCmp_performed whole]

theorem SetsCompare.wait {cmp : BitVec 64} {write armed returned : Nat}
    (sets : SetsCompare start bus cmp first write armed last)
    (passes : Passes Untouched bus last returned) :
    SetsCompare start bus cmp first write armed returned :=
  { sets with
    after := sets.after.trans passes
    time := sets.time.trans (passes.mono fun _ => not_writesTime_of_untouched) }

/-- A program begins with a call of `counter`. -/
theorem counter_begins {β : Type} {rest : BitVec 64 → Driver β} {value : β} {hi lo : Nat}
    {later : List Nat}
    (performs : Performs circuit mtimerBus Untouched start bus (MTimer.counter.bind rest) first
      (hi :: lo :: later) last value) :
    Torn start bus (readAt start bus hi lo) ∧ first ≤ hi ∧
      Passes Untouched bus first (lo + 1) ∧
      Performs circuit mtimerBus Untouched start bus (rest (sampled start bus hi lo)) (lo + 1)
        later last value := by
  obtain ⟨_, _, listed, before, readsHigh, performs⟩ := performs.of_read
  obtain ⟨_, _, listed', between, readsLow, performs⟩ := performs.of_read
  simp only [List.cons.injEq] at listed listed'
  obtain ⟨rfl, rfl⟩ := listed
  obtain ⟨rfl, rfl⟩ := listed'
  have high : mtimerBus.data (circuit.outFrom start bus hi) = _ := high_read _ _ readsHigh
  have low : mtimerBus.data (circuit.outFrom start bus lo) = _ := low_read _ _ readsLow
  have quiet : ∀ {addr step}, mtimerBus.reads addr step → Untouched step := fun reads =>
    untouched_of_quiet (by simp [writes, reads.2.2.1])
  refine ⟨⟨between.1, ?_⟩, before.1,
    before.append (quiet readsHigh) (between.append (quiet readsLow) (.refl _)), ?_⟩
  · rw [readAt, sampled, toNat_append, high_toNat, low_toNat]
    rfl
  · rw [sampled, ← high, ← low, ← setWidth_append]
    exact performs

theorem ok_of_checkedAdd {overflowChecks : Bool} {x y sum : BitVec 64}
    (added : checkedAdd overflowChecks x y = .ok sum) : sum = x + y := by
  unfold checkedAdd at added
  split at added
  · cases added
  · cases added
    rfl

/-- What one run of the handler does between its second read and its return. -/
inductive Handled (start : State) (bus : Nat → ApbIn) (interval : BitVec 64) (state : Monotonic)
    (sample : BitVec 64) (read returned : Nat) : Monotonic → Prop
  | stops : (state.samples ++ [sample]).length = samplesCapacity →
      Passes Untouched bus read returned →
      Handled start bus interval state sample read returned ⟨state.samples ++ [sample], true⟩
  | goesOn {write armed : Nat} : (state.samples ++ [sample]).length ≠ samplesCapacity →
      SetsCompare start bus (sample + interval) read write armed returned →
      Handled start bus interval state sample read returned
        ⟨state.samples ++ [sample], state.stop⟩

theorem machineTimer_handled {overflowChecks : Bool} {interval : BitVec 64}
    {state next : Monotonic} {hi lo : Nat} {later : List Nat}
    (performs : Performs circuit mtimerBus Untouched start bus
      (machineTimer overflowChecks interval state) first (hi :: lo :: later) last (.ok next)) :
    Torn start bus (readAt start bus hi lo) ∧ first ≤ hi ∧ Passes Untouched bus first (lo + 1) ∧
      Handled start bus interval state (sampled start bus hi lo) (lo + 1) last next := by
  obtain ⟨torn, after, reading, performs⟩ := counter_begins performs
  refine ⟨torn, after, reading, ?_⟩
  by_cases full : (state.samples ++ [sampled start bus hi lo]).length = samplesCapacity
  · simp only [if_pos full] at performs
    obtain ⟨_, returned, passes⟩ := performs.of_done
    cases returned
    exact .stops full passes
  · simp only [if_neg full] at performs
    cases added : checkedAdd overflowChecks (sampled start bus hi lo) interval with
    | error panic =>
        rw [added] at performs
        obtain ⟨_, returned, _⟩ := performs.of_done
        cases returned
    | ok cmp =>
        rw [added] at performs
        obtain ⟨middle, _, _, _, _, compares, ends⟩ := performs.of_bind
        obtain ⟨_, returned, passes⟩ := ends.of_done
        cases returned
        obtain ⟨write, armed, sets⟩ := setCmp_sets compares
        rw [ok_of_checkedAdd added] at sets
        exact .goesOn full (sets.wait passes)

theorem enable_time : MTimer.enable.OnlyWrites fun addr data => ¬writesTime (.write addr data) := by
  have other : ¬(register ((mtimerBase + mtimeCtrlAddrOfs).extractLsb' 2 3) = .mTimeLow ∨
      register ((mtimerBase + mtimeCtrlAddrOfs).extractLsb' 2 3) = .mTimeHigh) := by decide
  exact fun _ => And.intro (other ·.2) trivial

theorem enable_arms {cmp : BitVec 64} {since : Nat}
    (performs : Performs circuit mtimerBus Untouched start bus MTimer.enable first accesses last ())
    (others : Passes (fun step => ¬writesControl step) bus since first)
    (disabled : (circuit.runFrom start bus since).enableQ = false)
    (compare : (circuit.runFrom start bus first).mtimecmpQ = cmp) :
    ∃ armed, since ≤ armed ∧ Armed start bus cmp since armed last := by
  have enables := (enable_performed performs).1
  have kept := compare_kept performs fun _ => And.intro (control_other _) trivial
  obtain ⟨read, _, _, before, reads, performs⟩ := performs.of_read
  obtain ⟨write, _, _, between, writes, performs⟩ := performs.of_write
  obtain ⟨_, _, after⟩ := performs.of_done
  have reading : Untouched (bus read) :=
    untouched_of_quiet (by simp [ApbMtimer.writes, reads.2.2.1])
  have waits := (before.append reading between).mono fun _ => not_writesControl_of_untouched
  have silent := others.trans waits
  have counts : Counts start bus (write + 1) last := counts_of_passes after
  have order := silent.1
  refine ⟨write + 1, by omega, fun raised above below rises => ?_, after,
    counts.enable.symm.trans enables, counts.mtimecmp.symm.trans (kept.trans compare)⟩
  have enabled := (irq_iff.mp rises.2).1
  rw [enable_stays silent (show since ≤ raised + 1 by omega) (by omega), disabled] at enabled
  cases enabled

theorem startSampling_arms {overflowChecks : Bool} {interval counter : BitVec 64} {hi lo : Nat}
    {later : List Nat}
    (performs : Performs circuit mtimerBus Untouched start bus
      (startSampling overflowChecks interval) first (hi :: lo :: later) last (.ok counter))
    (disabled : (circuit.runFrom start bus first).enableQ = false) :
    Torn start bus (readAt start bus hi lo) ∧ first ≤ hi ∧ lo < last ∧
      counter = sampled start bus hi lo ∧
      Passes (fun bus => ¬writesTime bus) bus first last ∧
      ∃ armed, first ≤ armed ∧ Armed start bus (counter + interval) first armed last := by
  obtain ⟨torn, after, reading, performs⟩ := counter_begins performs
  cases added : checkedAdd overflowChecks (sampled start bus hi lo) interval with
  | error panic =>
      rw [added] at performs
      obtain ⟨_, returned, _⟩ := performs.of_done
      cases returned
  | ok cmp =>
      rw [added] at performs
      obtain ⟨middle, _, _, _, _, compares, performs⟩ := performs.of_bind
      obtain ⟨middle', _, _, _, _, enables, ends⟩ := performs.of_bind
      obtain ⟨_, returned, waits⟩ := ends.of_done
      cases returned
      have before := (reading.mono fun _ => not_writesControl_of_untouched).trans
        (setCmp_others compares)
      obtain ⟨armed, order, arms⟩ := enable_arms enables before disabled (setCmp_performed compares)
      rw [ok_of_checkedAdd added] at arms
      have time := ((reading.mono fun _ => not_writesTime_of_untouched).trans
        (time_untouched compares (setCmp_time cmp))).trans
        ((time_untouched enables enable_time).trans
          (waits.mono fun _ => not_writesTime_of_untouched))
      exact ⟨torn, after, by have := compares.order; have := enables.order; have := waits.1; omega,
        rfl, time, armed, order, { arms with passes := arms.passes.trans waits }⟩

end Run

/-- One run of the handler, up to the cycle in which it returned. -/
structure HandlerRun where
  sample : Sample
  returned : Nat

/-- From the first read of the handler to its return the low word of the counter stays below its
maximum. -/
def BelowMaximum (start : State) (bus : Nat → ApbIn) (run : HandlerRun) : Prop :=
  mtimeAt start bus run.sample.first % 2 ^ 32 + ticks start bus run.sample.first run.returned <
    2 ^ 32 - 1

instance (start : State) (bus : Nat → ApbIn) (run : HandlerRun) :
    Decidable (BelowMaximum start bus run) :=
  inferInstanceAs (Decidable (_ < _))

section Handlers

variable (start : State) (bus : Nat → ApbIn) (overflowChecks : Bool) (interval : BitVec 64)

/-- Runs of the handler, each of them for an edge of the interrupt line since the run before was
entered: until then the interrupt of that edge stays pending. -/
inductive Handlers : Monotonic → Nat → Nat → List HandlerRun → Monotonic → Nat → Prop
  | none (state : Monotonic) (since returned : Nat) :
      Handlers state since returned [] state returned
  | handler {state next final : Monotonic} {since returned raised entered returned' last : Nat}
      {hi lo : Nat} {writes : List Nat} {runs : List HandlerRun} :
      Passes Untouched bus returned entered → since ≤ raised → raised < entered →
      Rises start bus raised →
      Performs circuit mtimerBus Untouched start bus (machineTimer overflowChecks interval state)
        entered (hi :: lo :: writes) returned' (.ok next) →
      Handlers next entered returned' runs final last →
      Handlers state since returned (⟨readAt start bus hi lo, returned'⟩ :: runs) final last

/-- What holds between two runs of the handler: the timer is armed for one interval after the last
sample, or the vector is full and the line stays high. -/
inductive Ready (previous : BitVec 64) (since returned : Nat) : Monotonic → Prop
  | armed {samples : List (BitVec 64)} {armed : Nat} : samples.length < samplesCapacity →
      since ≤ armed → Armed start bus (previous + interval) since armed returned →
      Ready previous since returned ⟨samples, false⟩
  | stopped {samples : List (BitVec 64)} : samples.length = samplesCapacity →
      (circuit.outFrom start bus since).timerIrq = true → Passes Untouched bus since returned →
      Ready previous since returned ⟨samples, true⟩

end Handlers

/-- Each value is at least the interval above every one before it. -/
def Spaced (interval : BitVec 64) (values : List (BitVec 64)) : Prop :=
  values.Pairwise fun earlier later => earlier.toNat + interval.toNat ≤ later.toNat

theorem increasing_of_spaced {interval : BitVec 64} (positive : 0 < interval)
    {values : List (BitVec 64)} (spaced : Spaced interval values) : increasing values = true := by
  induction values with
  | nil => rfl
  | cons earlier values ih =>
      cases values with
      | nil => rfl
      | cons later rest =>
          obtain ⟨above, spaced⟩ := List.pairwise_cons.mp spaced
          have apart := above later List.mem_cons_self
          have lower : earlier < later := by
            rw [BitVec.lt_def] at positive ⊢
            have zero : (0#64).toNat = 0 := rfl
            omega
          simp [increasing, lower, ih spaced]

section Handlers

variable {start : State} {bus : Nat → ApbIn} {overflowChecks : Bool} {interval : BitVec 64}

theorem Handled.time {state next : Monotonic} {sample : BitVec 64} {read returned : Nat}
    (handled : Handled start bus interval state sample read returned next) :
    Passes (fun bus => ¬writesTime bus) bus read returned ∧
      next.samples = state.samples ++ [sample] := by
  cases handled with
  | stops _ passes => exact ⟨passes.mono fun _ => not_writesTime_of_untouched, rfl⟩
  | goesOn _ sets => exact ⟨sets.time, rfl⟩

theorem Handlers.spec {state final : Monotonic} {since returned last : Nat}
    {runs : List HandlerRun}
    (handlers : Handlers start bus overflowChecks interval state since returned runs final last) :
    Passes (fun bus => ¬writesTime bus) bus returned last ∧
      final.samples = state.samples ++ runs.map fun run => run.sample.value := by
  induction handlers with
  | none state since returned => exact ⟨.refl returned, (List.append_nil _).symm⟩
  | handler waits _ _ _ performs _ ih =>
      obtain ⟨passes, sampled⟩ := ih
      obtain ⟨_, _, reading, handled⟩ := machineTimer_handled performs
      obtain ⟨writing, pushed⟩ := handled.time
      have entering := (waits.trans reading).mono fun _ => not_writesTime_of_untouched
      refine ⟨entering.trans (writing.trans passes), ?_⟩
      rw [sampled, pushed, List.append_assoc]
      rfl

end Handlers

section Window

variable {start : State} {bus : Nat → ApbIn} {first last : Nat}
  (passes : Passes (fun bus => ¬writesTime bus) bus first last)
  (noWrap : mtimeAt start bus first + ticks start bus first last < 2 ^ 64)

include passes noWrap

theorem irq_stays {early late : Nat} (quiet : Passes Untouched bus early late)
    (after : first ≤ early) (before : late ≤ last)
    (irq : (circuit.outFrom start bus early).timerIrq = true) :
    (circuit.outFrom start bus late).timerIrq = true := by
  obtain ⟨enabled, due⟩ := irq_iff.mp irq
  have counts : Counts start bus early late := counts_of_passes quiet
  refine irq_iff.mpr ⟨counts.enable.trans enabled, ?_⟩
  rw [compareAt_quiet quiet]
  exact due.trans (mtimeAt_le passes noWrap after quiet.1 before)

theorem Armed.fires {cmp : BitVec 64} {since armed returned entered raised : Nat}
    (arms : Armed start bus cmp since armed returned)
    (waits : Passes Untouched bus returned entered) (after : first ≤ armed)
    (before : entered ≤ last) (follows : since ≤ raised) (earlier : raised < entered)
    (rises : Rises start bus raised) :
    cmp.toNat ≤ mtimeAt start bus (raised + 1) ∧
      armed ≤ raised + 1 ∧ (circuit.outFrom start bus entered).timerIrq = true := by
  have late : armed ≤ raised + 1 := by
    by_contra early
    exact arms.silent raised follows (by omega) rises
  have quiet := arms.passes.trans waits
  have upTo := quiet.within (le_refl armed) late earlier
  refine ⟨?_, late, irq_stays passes noWrap (quiet.within late earlier (le_refl entered)) (by omega)
    before rises.2⟩
  have due := (irq_iff.mp rises.2).2
  rw [compareAt_quiet upTo, compareAt, arms.compare] at due
  exact due

theorem mtimeAt_below {run : HandlerRun} (below : BelowMaximum start bus run)
    (after : first ≤ run.sample.first) (before : run.returned ≤ last) {cycle : Nat}
    (follows : run.sample.first ≤ cycle) (upTo : cycle ≤ run.returned) :
    mtimeAt start bus cycle / 2 ^ 32 = mtimeAt start bus run.sample.first / 2 ^ 32 ∧
      mtimeAt start bus cycle % 2 ^ 32 < 2 ^ 32 - 1 := by
  have atFirst := mtimeAt_add_ticks after (by omega) passes.2 noWrap
  have split : ticks start bus run.sample.first run.returned = _ := ticks_split follows upTo
  have rest : ticks start bus run.sample.first last = _ := ticks_split (follows.trans upTo) before
  have atCycle : mtimeAt start bus cycle = _ :=
    mtimeAt_eq follows (fun other above under => passes.2 other (by omega) (by omega)) (by omega)
  unfold BelowMaximum at below
  omega

/-- While the low word of the counter stays below its maximum, `set_cmp` does not make the line
rise before its last write. -/
theorem SetsCompare.arms {cmp : BitVec 64} {entered read write armed : Nat} {run : HandlerRun}
    (sets : SetsCompare start bus cmp read write armed run.returned)
    (below : BelowMaximum start bus run) (reading : Passes Untouched bus entered read)
    (after : first ≤ entered) (reads : entered ≤ run.sample.first) (order : run.sample.first ≤ read)
    (before : run.returned ≤ last) (irq : (circuit.outFrom start bus entered).timerIrq = true)
    (later : mtimeAt start bus entered ≤ cmp.toNat) :
    Armed start bus cmp entered armed run.returned := by
  obtain ⟨enabled, due⟩ := irq_iff.mp irq
  have atRead : Counts start bus entered read := counts_of_passes reading
  have same : compareAt start bus read = _ := compareAt_quiet reading
  have quiet := reading.trans sets.before
  have starts := sets.before.1
  have writes := sets.order
  have returns := sets.after.1
  refine ⟨fun raised follows sooner rises => ?_, sets.after, ?_, sets.compare⟩
  · by_cases early : raised ≤ write
    · have high := irq_stays passes noWrap (quiet.within (le_refl entered) follows early) after
        (by omega) irq
      rw [rises.1] at high
      cases high
    · have grows := sets.grows (by rw [same]; exact Nat.div_le_div_right (due.trans later)) raised
        (by omega) sooner
      have full := sets.full raised (by omega) (by omega)
      have full' := sets.full (raised + 1) (by omega) sooner
      have now := mtimeAt_below passes noWrap below (by omega) before
        (show run.sample.first ≤ raised by omega) (by omega)
      have next := mtimeAt_below passes noWrap below (by omega) before
        (show run.sample.first ≤ raised + 1 by omega) (by omega)
      have short : ¬compareAt start bus raised ≤ mtimeAt start bus raised := fun reached => by
        have on := (sets.enable raised (by omega) (by omega)).trans (atRead.enable.trans enabled)
        have high := irq_iff.mpr ⟨on, reached⟩
        rw [rises.1] at high
        cases high
      have reached := (irq_iff.mp rises.2).2
      omega
  · exact (sets.enable armed (by omega) (le_refl armed)).trans (atRead.enable.trans enabled)

theorem Ready.fires {interval previous : BitVec 64} {state : Monotonic}
    {since returned entered raised : Nat}
    (ready : Ready start bus interval previous since returned state)
    (waits : Passes Untouched bus returned entered) (after : first ≤ since)
    (before : entered ≤ last) (follows : since ≤ raised) (earlier : raised < entered)
    (rises : Rises start bus raised) :
    state.stop = false ∧ state.samples.length < samplesCapacity ∧
      (previous + interval).toNat ≤ mtimeAt start bus entered ∧
      (circuit.outFrom start bus entered).timerIrq = true := by
  cases ready with
  | armed short order arms =>
      obtain ⟨due, late, irq⟩ :=
        arms.fires passes noWrap waits (after.trans order) before follows earlier rises
      have later := mtimeAt_le passes noWrap (show first ≤ raised + 1 by omega) earlier before
      exact ⟨rfl, short, due.trans later, irq⟩
  | stopped _ irq quiet =>
      have high := irq_stays passes noWrap
        ((quiet.trans waits).within (le_refl since) follows (Nat.le_of_lt earlier)) after (by omega)
        irq
      rw [rises.1] at high
      cases high

theorem HandlerRun.consistent {run : HandlerRun} (torn : Torn start bus run.sample)
    (below : BelowMaximum start bus run) (after : first ≤ run.sample.first)
    (returned : run.sample.second < run.returned) (before : run.returned ≤ last) :
    Consistent start bus run.sample := by
  refine (consistent_iff passes noWrap ⟨torn, after, by omega⟩).mpr ?_
  have split : ticks start bus run.sample.first run.returned = _ :=
    ticks_split (Nat.le_of_lt torn.order) (Nat.le_of_lt returned)
  unfold BelowMaximum at below
  unfold LowKept
  omega

theorem Handled.ready {interval : BitVec 64} {state next : Monotonic} {entered hi lo returned : Nat}
    (handled : Handled start bus interval state (sampled start bus hi lo) (lo + 1) returned next)
    (below : BelowMaximum start bus ⟨readAt start bus hi lo, returned⟩)
    (consistent : Consistent start bus (readAt start bus hi lo))
    (reading : Passes Untouched bus entered (lo + 1)) (order : hi < lo) (after : first ≤ entered)
    (reads : entered ≤ hi) (before : returned ≤ last) (running : state.stop = false)
    (short : state.samples.length < samplesCapacity)
    (irq : (circuit.outFrom start bus entered).timerIrq = true)
    (room : mtimeAt start bus lo + interval.toNat < 2 ^ 64) :
    Ready start bus interval (sampled start bus hi lo) entered returned next := by
  have follows : mtimeAt start bus hi ≤ (sampled start bus hi lo).toNat := consistent.1
  have upTo : (sampled start bus hi lo).toNat ≤ mtimeAt start bus lo := consistent.2
  cases handled with
  | stops full quiet => exact .stopped full irq (reading.trans quiet)
  | @goesOn write armed notFull sets =>
      rw [running]
      have pushed : (state.samples ++ [sampled start bus hi lo]).length =
          state.samples.length + 1 := List.length_append
      have starts := sets.before.1
      have writes := sets.order
      have returns := sets.after.1
      have fits : (sampled start bus hi lo + interval).toNat = _ :=
        BitVec.toNat_add_of_lt (by omega)
      have entry := mtimeAt_le passes noWrap after reads (by omega)
      exact .armed (by omega) (by omega)
        (sets.arms passes noWrap below reading after reads (show hi ≤ lo + 1 by omega) before irq
          (by omega))

theorem Handlers.spaced {overflowChecks : Bool} {interval previous : BitVec 64}
    {state final : Monotonic} {since returned : Nat} {runs : List HandlerRun}
    (handlers : Handlers start bus overflowChecks interval state since returned runs final last)
    (room : mtimeAt start bus last + interval.toNat < 2 ^ 64)
    (ready : Ready start bus interval previous since returned state)
    (after : first ≤ since) (order : since ≤ returned)
    (below : ∀ run ∈ runs, BelowMaximum start bus run)
    (reached : previous.toNat ≤ mtimeAt start bus last) :
    Spaced interval (previous :: runs.map fun run => run.sample.value) ∧
      final.samples.length ≤ samplesCapacity := by
  induction handlers generalizing previous with
  | none state since returned =>
      refine ⟨List.pairwise_singleton _ _, ?_⟩
      cases ready with
      | armed short _ _ => exact Nat.le_of_lt short
      | stopped full _ _ => exact Nat.le_of_eq full
  | @handler state _ _ since returned raised entered returned' last hi lo _ runs waits follows
      earlier rises performs rest ih =>
      obtain ⟨torn, reads, reading, handled⟩ := machineTimer_handled performs
      have order' : hi < lo := torn.order
      have inside := handled.time.1.1
      have exit := rest.spec.1.1
      have entry := waits.1
      obtain ⟨running, short, due, irq⟩ :=
        ready.fires passes noWrap waits after (by omega) follows earlier rises
      have belowHere := below _ List.mem_cons_self
      have consistent : Consistent start bus (readAt start bus hi lo) :=
        HandlerRun.consistent passes noWrap torn belowHere (show first ≤ hi by omega) inside exit
      have atLo := mtimeAt_le passes noWrap (show first ≤ lo by omega) (by omega) (le_refl last)
      have atHi := mtimeAt_le passes noWrap (show first ≤ entered by omega) reads (by omega)
      have next := handled.ready passes noWrap belowHere consistent reading order' (by omega) reads
        exit running short irq (by omega)
      have least : mtimeAt start bus hi ≤ (sampled start bus hi lo).toNat := consistent.1
      have most : (sampled start bus hi lo).toNat ≤ mtimeAt start bus lo := consistent.2
      have fits : (previous + interval).toNat = previous.toNat + interval.toNat :=
        BitVec.toNat_add_of_lt (by omega)
      obtain ⟨spaced, bounded⟩ := ih passes noWrap room next (by omega) (by omega)
        (fun run member => below run (List.mem_cons_of_mem _ member)) (by omega)
      refine ⟨List.pairwise_cons.mpr ⟨fun later member => ?_, spaced⟩, bounded⟩
      rcases List.mem_cons.mp member with rfl | further
      · change _ ≤ (sampled start bus hi lo).toNat
        omega
      · have above := List.rel_of_pairwise_cons spaced further
        omega

end Window

/-- If the low word of the counter is at its maximum in none of the handler's runs, each sample is
at least one interval above the ones before it: the final assertion holds, and nothing is pushed to
a full vector. -/
theorem samples_increase (start : State) (bus : Nat → ApbIn) (overflowChecks : Bool)
    (interval counter : BitVec 64) (final : Monotonic) (first returned last hi lo : Nat)
    (later : List Nat) (runs : List HandlerRun) (positive : 0 < interval)
    (disabled : (circuit.runFrom start bus first).enableQ = false)
    (starts : Performs circuit mtimerBus Untouched start bus
      (startSampling overflowChecks interval) first (hi :: lo :: later) returned (.ok counter))
    (handlers : Handlers start bus overflowChecks interval ⟨[], false⟩ first returned runs final
      last)
    (noWrap : mtimeAt start bus first + ticks start bus first last + interval.toNat < 2 ^ 64)
    (below : ∀ run ∈ runs, BelowMaximum start bus run) :
    final.samples = runs.map (fun run => run.sample.value) ∧
      final.samples.length ≤ samplesCapacity ∧ Spaced interval (counter :: final.samples) ∧
      increasing final.samples = true := by
  obtain ⟨torn, after, before, rfl, starting, armed, order, arms⟩ :=
    startSampling_arms starts disabled
  obtain ⟨handling, pushed⟩ := handlers.spec
  have passes := starting.trans handling
  have small : mtimeAt start bus first + ticks start bus first last < 2 ^ 64 := by omega
  have exit := handling.1
  have atEnd := mtimeAt_add_ticks passes.1 (le_refl last) passes.2 small
  have order' : hi < lo := torn.order
  have reached : (sampled start bus hi lo).toNat ≤ mtimeAt start bus last := by
    have value : (sampled start bus hi lo).toNat =
        mtimeAt start bus hi / 2 ^ 32 * 2 ^ 32 + mtimeAt start bus lo % 2 ^ 32 := torn.value
    have atLo := mtimeAt_le passes small (show first ≤ hi from after) (Nat.le_of_lt order')
      (by omega)
    have atLast := mtimeAt_le passes small (show first ≤ lo by omega) (show lo ≤ last by omega)
      (le_refl last)
    omega
  obtain ⟨spaced, bounded⟩ := handlers.spaced passes small (by omega)
    (.armed (by decide) order arms) (le_refl first) starting.1 below reached
  rw [pushed] at bounded ⊢
  exact ⟨rfl, bounded, spaced, increasing_of_spaced positive (List.pairwise_cons.mp spaced).2⟩

-- `main` with an interval of two ticks, and one run of the handler
def sampling : Nat → ApbIn
  | 0 | 10 => .read (mtimerBase + mtimeHighAddrOfs)
  | 1 | 11 => .read (mtimerBase + mtimeLowAddrOfs)
  | 2 | 12 => .write (mtimerBase + mtimecmpLowAddrOfs) (BitVec.allOnes 32)
  | 3 | 13 => .write (mtimerBase + mtimecmpHighAddrOfs) 0
  | 4 => .write (mtimerBase + mtimecmpLowAddrOfs) 2
  | 5 => .read (mtimerBase + mtimeCtrlAddrOfs)
  | 6 => .write (mtimerBase + mtimeCtrlAddrOfs) 1
  | 14 => .write (mtimerBase + mtimecmpLowAddrOfs) 6
  | _ => .idle

theorem sampling_starts :
    Performs circuit mtimerBus Untouched circuit.reset sampling (startSampling true 2) 0
      [0, 1, 2, 3, 4, 5, 6] 7 (.ok 0) := by
  refine .read ⟨rfl, rfl, rfl, rfl⟩ (.read ⟨rfl, rfl, rfl, rfl⟩ ?_)
  exact .write rfl (.write rfl (.write rfl (.read ⟨rfl, rfl, rfl, rfl⟩ (.write rfl (.done _ 7)))))

theorem sampling_handles :
    Performs circuit mtimerBus Untouched circuit.reset sampling (machineTimer true 2 ⟨[], false⟩)
      10 [10, 11, 12, 13, 14] 15 (.ok ⟨[4], false⟩) := by
  refine .read ⟨rfl, rfl, rfl, rfl⟩ (.read ⟨rfl, rfl, rfl, rfl⟩ ?_)
  exact .write rfl (.write rfl (.write rfl (.done _ 15)))

theorem samples_increase_once :
    [4#64] = [(readAt circuit.reset sampling 10 11).value] ∧ [4#64].length ≤ samplesCapacity ∧
      Spaced 2 [0, 4] ∧ increasing [4] = true := by
  have waits : Passes Untouched sampling 7 10 :=
    ⟨by decide, fun cycle above below => by
      have idle : ∀ waited < 10, 7 ≤ waited → sampling waited = .idle := by decide
      rw [idle cycle below above]
      exact untouched_of_quiet rfl⟩
  refine samples_increase circuit.reset sampling true 2 0 ⟨[4], false⟩ 0 7 15 0 1 [2, 3, 4, 5, 6]
    [⟨readAt circuit.reset sampling 10 11, 15⟩] (by decide) rfl sampling_starts ?_ (by decide) ?_
  · have rises : Rises circuit.reset sampling 8 := by decide
    exact .handler waits (by decide) (by decide) rises sampling_handles (.none _ _ _)
  · intro run listed
    rw [List.mem_singleton.mp listed]
    decide

end Atalanta.Bsp
