import Atalanta.Bsp.MTimerCounter

/-! `MTimer::set_counter` on a timer that goes on counting: the low half is written first, so
between the two writes the counter shows the new low half below the old high half. -/

namespace Atalanta.Bsp

open ApbMtimer BusProgram

theorem next_low (state : State) (data : BitVec 32) :
    next state (.write (mtimerBase + mtimeLowAddrOfs) data) =
      { state with mtimeQ := state.mtimeQ.extractLsb' 32 32 ++ data, counterQ := 0 } := by
  have selected : register ((mtimerBase + mtimeLowAddrOfs).extractLsb' 2 3) = .mTimeLow := by
    decide
  rw [next_of_write state _ rfl, intAddr, ApbIn.write, selected]

theorem next_high (state : State) (data : BitVec 32) :
    next state (.write (mtimerBase + mtimeHighAddrOfs) data) =
      { state with mtimeQ := data ++ state.mtimeQ.extractLsb' 0 32, counterQ := 0 } := by
  have selected : register ((mtimerBase + mtimeHighAddrOfs).extractLsb' 2 3) = .mTimeHigh := by
    decide
  rw [next_of_write state _ rfl, intAddr, ApbIn.write, selected]

section Run

variable {start : State} {bus : Nat → ApbIn}

theorem exists_ticksIn (first : Nat) {cycles count : Nat}
    (reached : count ≤ ticksIn start bus first cycles) :
    ∃ earlier ≤ cycles, ticksIn start bus first earlier = count := by
  induction cycles with
  | zero =>
      rw [ticksIn, Nat.le_zero] at reached
      exact ⟨0, Nat.le_refl 0, reached.symm⟩
  | succ cycles ih =>
      by_cases before : count ≤ ticksIn start bus first cycles
      · obtain ⟨earlier, within, same⟩ := ih before
        exact ⟨earlier, by omega, same⟩
      · refine ⟨cycles + 1, Nat.le_refl _, ?_⟩
        rw [ticksIn] at reached ⊢
        have one := Bool.toNat_le (ticksNow (circuit.runFrom start bus (first + cycles))
          (bus (first + cycles)))
        omega

theorem exists_ticks {first last count : Nat} (order : first ≤ last)
    (reached : count ≤ ticks start bus first last) :
    ∃ cycle, first ≤ cycle ∧ cycle ≤ last ∧ ticks start bus first cycle = count := by
  obtain ⟨cycles, within, same⟩ := exists_ticksIn first reached
  refine ⟨first + cycles, by omega, by omega, ?_⟩
  rw [ticks, Nat.add_sub_cancel_left]
  exact same

/-- From one cycle to another the timer only counts. -/
structure Counts (start : State) (bus : Nat → ApbIn) (first last : Nat) : Prop where
  mtime : (circuit.runFrom start bus last).mtimeQ =
    (circuit.runFrom start bus first).mtimeQ + BitVec.ofNat 64 (ticks start bus first last)
  mtimecmp : (circuit.runFrom start bus last).mtimecmpQ =
    (circuit.runFrom start bus first).mtimecmpQ
  enable : (circuit.runFrom start bus last).enableQ = (circuit.runFrom start bus first).enableQ

theorem counts_of_passes {first last : Nat} (passes : Passes Untouched bus first last) :
    Counts start bus first last := by
  have order := passes.1
  have steady : ∀ state step, Untouched step →
      state.mtimecmpQ = (circuit.runFrom start bus first).mtimecmpQ ∧
        state.enableQ = (circuit.runFrom start bus first).enableQ →
      (circuit.next state step).mtimecmpQ = (circuit.runFrom start bus first).mtimecmpQ ∧
        (circuit.next state step).enableQ = (circuit.runFrom start bus first).enableQ :=
    fun state step untouched same =>
      ⟨(mtimecmp_kept state step (not_writesCompare_of_untouched untouched)).trans same.1,
        (untouched.enable_kept state).trans same.2⟩
  obtain ⟨mtimecmp, enable⟩ := passes.keeps steady ⟨rfl, rfl⟩ last order (Nat.le_refl last)
  refine ⟨?_, mtimecmp, enable⟩
  obtain ⟨cycles, rfl⟩ := Nat.exists_eq_add_of_le order
  rw [ticks, Nat.add_sub_cancel_left]
  exact mtimeQ_add fun cycle above below => not_writesTime_of_untouched (passes.2 cycle above below)

end Run

/-- What `set_counter` is for: afterwards the timer shows the new value and the ticks since the
first write, of which those before the second may be lost, and until then it raises no interrupt
that neither the old nor the new count accounts for. -/
structure SetsCounter (start : State) (bus : Nat → ApbIn) (cnt : BitVec 64)
    (low high last : Nat) : Prop where
  counts : ∃ lost ≤ ticks start bus (low + 1) high,
    (mtimeAt start bus last + lost) % 2 ^ 64 =
      (cnt.toNat + ticks start bus (low + 1) last) % 2 ^ 64
  irq : ∀ cycle, low ≤ cycle → cycle ≤ high →
    (circuit.outFrom start bus cycle).timerIrq = true →
      (circuit.runFrom start bus cycle).mtimecmpQ.toNat ≤
          mtimeAt start bus low + ticks start bus (low + 1) cycle ∨
        (circuit.runFrom start bus cycle).mtimecmpQ.toNat ≤
          cnt.toNat + ticks start bus (low + 1) cycle

-- what the counter shows between the two writes
def mixed (old cnt : BitVec 64) : BitVec 64 := old.extractLsb' 32 32 ++ cnt.extractLsb' 0 32

def CarryKept (cnt : BitVec 64) (between : Nat) : Prop :=
  (cnt.toNat % 2 ^ 32 + between) / 2 ^ 32 % 2 ^ 32 * 2 ^ 32 ≤ between

instance (cnt : BitVec 64) (between : Nat) : Decidable (CarryKept cnt between) :=
  inferInstanceAs (Decidable (_ ≤ _))

/-- The mixed value runs ahead of both counts, and reaches the compare value before they do. -/
def Glitches (old : State) (cnt : BitVec 64) (between : Nat) : Prop :=
  old.enableQ = true ∧
    max old.mtimeQ.toNat cnt.toNat < (mixed old.mtimeQ cnt).toNat ∧
    max old.mtimeQ.toNat cnt.toNat < old.mtimecmpQ.toNat ∧
    old.mtimecmpQ.toNat ≤ (mixed old.mtimeQ cnt).toNat + between

section CounterCall

variable {start : State} {bus : Nat → ApbIn} {cnt : BitVec 64} {low high last : Nat}

structure CounterCall (start : State) (bus : Nat → ApbIn) (cnt : BitVec 64) (low high last : Nat) :
    Prop where
  writesLow : bus low = .write (mtimerBase + mtimeLowAddrOfs) (cnt.setWidth 32)
  between : Passes Untouched bus (low + 1) high
  writesHigh : bus high = .write (mtimerBase + mtimeHighAddrOfs) ((cnt >>> 32).setWidth 32)
  after : Passes Untouched bus (high + 1) last

theorem call_of_performs {first : Nat}
    (performs : Performs circuit mtimerBus Untouched start bus (MTimer.setCounter cnt) first
      [low, high] last ()) : CounterCall start bus cnt low high last := by
  obtain ⟨_, _, listed, _, writesLow, performs⟩ := performs.of_write
  obtain ⟨_, _, listed', between, writesHigh, performs⟩ := performs.of_write
  obtain ⟨rfl, _, after⟩ := performs.of_done
  simp only [List.cons.injEq] at listed
  obtain ⟨rfl, rfl⟩ := listed
  simp only [List.cons.injEq, and_true] at listed'
  subst listed'
  exact ⟨writesLow, between, writesHigh, after⟩

theorem CounterCall.after_low (call : CounterCall start bus cnt low high last) :
    circuit.runFrom start bus (low + 1) =
      { circuit.runFrom start bus low with
        mtimeQ := mixed (circuit.runFrom start bus low).mtimeQ cnt
        counterQ := 0 } := by
  rw [circuit.runFrom_succ, call.writesLow]
  refine (next_low _ _).trans ?_
  rw [BitVec.setWidth_eq_extractLsb' (by decide), mixed]

theorem CounterCall.after_high (call : CounterCall start bus cnt low high last) :
    (circuit.runFrom start bus (high + 1)).mtimeQ =
      cnt.extractLsb' 32 32 ++ (circuit.runFrom start bus high).mtimeQ.extractLsb' 0 32 := by
  rw [circuit.runFrom_succ, call.writesHigh]
  refine congrArg State.mtimeQ (next_high _ _) |>.trans ?_
  rw [BitVec.setWidth_ushiftRight_eq_extractLsb]

theorem CounterCall.ticks_last (call : CounterCall start bus cnt low high last) :
    ticks start bus (low + 1) last =
      ticks start bus (low + 1) high + ticks start bus (high + 1) last := by
  have order := call.between.1
  have order' := call.after.1
  have silent : ticks start bus high (high + 1) = 0 := by
    have strobe : writes (bus high) = true := by rw [call.writesHigh]; rfl
    simp [ticks, ticksIn, ticksNow, strobe]
  have first : ticks start bus (low + 1) last = _ :=
    ticks_split order (show high ≤ last by omega)
  have second : ticks start bus high last = _ := ticks_split (Nat.le_add_right high 1) order'
  omega

theorem mixed_toNat (old cnt : BitVec 64) :
    (mixed old cnt).toNat = old.toNat / 2 ^ 32 * 2 ^ 32 + cnt.toNat % 2 ^ 32 := by
  rw [mixed, toNat_append, high_toNat, low_toNat]

theorem CounterCall.mtimeAt_between (call : CounterCall start bus cnt low high last) {cycle : Nat}
    (after : low < cycle) (before : cycle ≤ high) :
    mtimeAt start bus cycle =
      ((mixed (circuit.runFrom start bus low).mtimeQ cnt).toNat +
        ticks start bus (low + 1) cycle) % 2 ^ 64 := by
  have quiet : Passes Untouched bus (low + 1) cycle :=
    ⟨after, fun middle above below => call.between.2 middle above (by omega)⟩
  rw [mtimeAt, (counts_of_passes quiet).mtime, call.after_low, BitVec.toNat_add,
    BitVec.toNat_ofNat, Nat.add_mod_mod]

theorem CounterCall.mtimeAt_last (call : CounterCall start bus cnt low high last) :
    mtimeAt start bus last =
      (cnt.toNat / 2 ^ 32 * 2 ^ 32 +
        (cnt.toNat % 2 ^ 32 + ticks start bus (low + 1) high) % 2 ^ 32 +
        ticks start bus (high + 1) last) % 2 ^ 64 := by
  have shown := call.mtimeAt_between call.between.1 (Nat.le_refl high)
  rw [mixed_toNat] at shown
  rw [mtimeAt, (counts_of_passes call.after).mtime, call.after_high, BitVec.toNat_add,
    BitVec.toNat_ofNat, Nat.add_mod_mod, toNat_append, high_toNat, low_toNat]
  change (_ + mtimeAt start bus high % _ + _) % _ = _
  omega

theorem lost_iff {cnt between after shown : Nat} (value : shown =
      (cnt / 2 ^ 32 * 2 ^ 32 + (cnt % 2 ^ 32 + between) % 2 ^ 32 + after) % 2 ^ 64) :
    (∃ lost ≤ between, (shown + lost) % 2 ^ 64 = (cnt + (between + after)) % 2 ^ 64) ↔
      (cnt % 2 ^ 32 + between) / 2 ^ 32 % 2 ^ 32 * 2 ^ 32 ≤ between := by
  constructor
  · rintro ⟨lost, few, same⟩
    omega
  · intro kept
    exact ⟨_, kept, by omega⟩

theorem CounterCall.counts_iff (call : CounterCall start bus cnt low high last) :
    (∃ lost ≤ ticks start bus (low + 1) high,
      (mtimeAt start bus last + lost) % 2 ^ 64 =
        (cnt.toNat + ticks start bus (low + 1) last) % 2 ^ 64) ↔
      CarryKept cnt (ticks start bus (low + 1) high) := by
  rw [call.ticks_last]
  exact lost_iff call.mtimeAt_last

theorem CounterCall.compare (call : CounterCall start bus cnt low high last) {cycle : Nat}
    (after : low < cycle) (before : cycle ≤ high) :
    (circuit.runFrom start bus cycle).mtimecmpQ = (circuit.runFrom start bus low).mtimecmpQ ∧
      (circuit.runFrom start bus cycle).enableQ = (circuit.runFrom start bus low).enableQ := by
  have quiet : Passes Untouched bus (low + 1) cycle :=
    ⟨after, fun middle above below => call.between.2 middle above (by omega)⟩
  have counts : Counts start bus (low + 1) cycle := counts_of_passes quiet
  rw [counts.mtimecmp, counts.enable, call.after_low]
  exact ⟨rfl, rfl⟩

theorem CounterCall.irq_iff (call : CounterCall start bus cnt low high last) {cycle : Nat}
    (after : low < cycle)
    (before : cycle ≤ high) :
    (circuit.outFrom start bus cycle).timerIrq = true ↔
      (circuit.runFrom start bus low).enableQ = true ∧
        (circuit.runFrom start bus low).mtimecmpQ.toNat ≤
          ((mixed (circuit.runFrom start bus low).mtimeQ cnt).toNat +
            ticks start bus (low + 1) cycle) % 2 ^ 64 := by
  change timerIrq _ = true ↔ _
  obtain ⟨compare, enable⟩ := call.compare after before
  rw [timerIrq_iff, BitVec.le_def, compare, enable, ← call.mtimeAt_between after before]
  rfl

theorem CounterCall.glitch_free_iff (call : CounterCall start bus cnt low high last) :
    (∀ cycle, low ≤ cycle → cycle ≤ high →
      (circuit.outFrom start bus cycle).timerIrq = true →
        (circuit.runFrom start bus cycle).mtimecmpQ.toNat ≤
            mtimeAt start bus low + ticks start bus (low + 1) cycle ∨
          (circuit.runFrom start bus cycle).mtimecmpQ.toNat ≤
            cnt.toNat + ticks start bus (low + 1) cycle) ↔
      ¬Glitches (circuit.runFrom start bus low) cnt (ticks start bus (low + 1) high) := by
  have old : mtimeAt start bus low = (circuit.runFrom start bus low).mtimeQ.toNat := rfl
  rw [old]
  have narrow := (circuit.runFrom start bus low).mtimecmpQ.isLt
  have narrow' := (mixed (circuit.runFrom start bus low).mtimeQ cnt).isLt
  constructor
  · rintro quiet ⟨enabled, ahead, later, reached⟩
    -- the first cycle in which the mixed value has reached the compare value
    have due : (circuit.runFrom start bus low).mtimecmpQ.toNat -
        (mixed (circuit.runFrom start bus low).mtimeQ cnt).toNat ≤
          ticks start bus (low + 1) high := by
      omega
    obtain ⟨cycle, after, before, count⟩ := exists_ticks call.between.1 due
    have raised := (call.irq_iff after before).mpr ⟨enabled, by omega⟩
    have excuse := quiet cycle (by omega) before raised
    rw [(call.compare after before).1] at excuse
    omega
  · intro steady cycle after before irq
    by_cases first : cycle = low
    · left
      rw [first] at irq ⊢
      exact le_trans (BitVec.le_def.mp ((timerIrq_iff _).mp irq).2) (Nat.le_add_right _ _)
    · have later : low < cycle := by omega
      obtain ⟨enabled, reached⟩ := (call.irq_iff later before).mp irq
      have counted : ticks start bus (low + 1) high = _ := ticks_split later before
      rw [(call.compare later before).1]
      by_contra unexcused
      exact steady ⟨enabled, by omega, by omega, by omega⟩

end CounterCall

/-- A call sets the counter exactly when no carry is lost between its writes and the mixed value
raises no interrupt. -/
theorem set_counter_iff (start : State) (bus : Nat → ApbIn) (cnt : BitVec 64)
    (first low high last : Nat)
    (performs : Performs circuit mtimerBus Untouched start bus (MTimer.setCounter cnt) first
      [low, high] last ()) :
    SetsCounter start bus cnt low high last ↔
      CarryKept cnt (ticks start bus (low + 1) high) ∧
        ¬Glitches (circuit.runFrom start bus low) cnt (ticks start bus (low + 1) high) := by
  have call := call_of_performs performs
  rw [← call.counts_iff, ← call.glitch_free_iff]
  exact ⟨fun sets => ⟨sets.counts, sets.irq⟩, fun both => ⟨both.1, both.2⟩⟩

def setCounterAt (cnt : BitVec 64) (cycle : Nat) : ApbIn :=
  if cycle = 0 then .write (mtimerBase + mtimeLowAddrOfs) (cnt.setWidth 32)
  else if cycle = 2 then .write (mtimerBase + mtimeHighAddrOfs) ((cnt >>> 32).setWidth 32)
  else .idle

theorem setCounterAt_performs (start : State) (cnt : BitVec 64) :
    Performs circuit mtimerBus Untouched start (setCounterAt cnt) (MTimer.setCounter cnt) 0 [0, 2]
      3 () := by
  have idle : Untouched .idle := by
    intro strobe
    cases strobe
  exact .write rfl (.wait idle (.write rfl (.done () 3)))

theorem set_counter_small : SetsCounter (startedAt 5) (setCounterAt 9) 9 0 2 3 :=
  (set_counter_iff (startedAt 5) (setCounterAt 9) 9 0 0 2 3 (setCounterAt_performs _ _)).mpr
    ⟨by decide, by rintro ⟨_, ahead, _⟩; revert ahead; decide⟩

/-- One tick between the writes of `0xFFFFFFFF` takes the counter back to 0. -/
theorem set_counter_loses_carry :
    circuit.Reachable (startedAt 5) ∧
      Performs circuit mtimerBus Untouched (startedAt 5) (setCounterAt 0xFFFFFFFF)
        (MTimer.setCounter 0xFFFFFFFF) 0 [0, 2] 3 () ∧
      ticks (startedAt 5) (setCounterAt 0xFFFFFFFF) 1 2 = 1 ∧
      mtimeAt (startedAt 5) (setCounterAt 0xFFFFFFFF) 3 = 0 ∧
      ¬SetsCounter (startedAt 5) (setCounterAt 0xFFFFFFFF) 0xFFFFFFFF 0 2 3 := by
  refine ⟨.next _ (.next _ .reset), setCounterAt_performs _ _, by decide, by decide, ?_⟩
  rintro ⟨⟨lost, few, same⟩, _⟩
  have shown : mtimeAt (startedAt 5) (setCounterAt 0xFFFFFFFF) 3 = 0 := by decide
  have counted : ticks (startedAt 5) (setCounterAt 0xFFFFFFFF) (0 + 1) 2 = 1 := by decide
  have total : ticks (startedAt 5) (setCounterAt 0xFFFFFFFF) (0 + 1) 3 = 1 := by decide
  rw [shown, total] at same
  rw [counted] at few
  change (0 + lost) % 2 ^ 64 = (0xFFFFFFFF + 1) % 2 ^ 64 at same
  omega

end Atalanta.Bsp
