import Atalanta.Bsp.MTimer

/-! `MTimer::counter` against the running timer: the high word is read first, so the low word
may roll over between the two reads. -/

namespace Atalanta.Bsp

open ApbMtimer BusProgram

def writesTime (bus : ApbIn) : Prop :=
  writes bus = true ∧
    (register (intAddr bus) = .mTimeLow ∨ register (intAddr bus) = .mTimeHigh)

theorem not_writesTime_of_untouched {bus : ApbIn} (untouched : Untouched bus) :
    ¬writesTime bus := by
  rintro ⟨strobe, addressed⟩
  rw [untouched strobe] at addressed
  simp at addressed

theorem not_writesCompare_of_untouched {bus : ApbIn} (untouched : Untouched bus) :
    ¬writesCompare bus := by
  rintro ⟨strobe, addressed⟩
  rw [untouched strobe] at addressed
  simp at addressed

def ticksNow (state : State) (bus : ApbIn) : Bool :=
  !writes bus && state.enableQ && decide (state.counterQ = state.prescalerQ)

theorem mtime_next (state : State) (bus : ApbIn) (other : ¬writesTime bus) :
    (next state bus).mtimeQ = state.mtimeQ + BitVec.ofNat 64 (ticksNow state bus).toNat := by
  cases strobe : writes bus with
  | false =>
      rw [next_of_quiet state bus strobe]
      cases enabled : state.enableQ with
      | false => simp [ticksNow, enabled]
      | true =>
          by_cases due : state.counterQ = state.prescalerQ
          · simp [ticksNow, strobe, enabled, due]
          · simp [ticksNow, enabled, due]
  | true =>
      rw [next_of_write state bus strobe]
      have silent : ticksNow state bus = false := by simp [ticksNow, strobe]
      rw [silent]
      split
      · rename_i low
        exact absurd ⟨strobe, Or.inl low⟩ other
      · rename_i high
        exact absurd ⟨strobe, Or.inr high⟩ other
      all_goals simp

section Ticks

variable (start : State) (bus : Nat → ApbIn)

def mtimeAt (cycle : Nat) : Nat := (circuit.runFrom start bus cycle).mtimeQ.toNat

def ticksIn (first : Nat) : Nat → Nat
  | 0 => 0
  | cycles + 1 =>
    ticksIn first cycles +
      (ticksNow (circuit.runFrom start bus (first + cycles)) (bus (first + cycles))).toNat

def ticks (first last : Nat) : Nat := ticksIn start bus first (last - first)

variable {start bus}

theorem ticksIn_add (first cycles more : Nat) :
    ticksIn start bus first (cycles + more) =
      ticksIn start bus first cycles + ticksIn start bus (first + cycles) more := by
  induction more with
  | zero => rfl
  | succ more ih =>
      rw [← Nat.add_assoc, ticksIn, ticksIn, ih, Nat.add_assoc first cycles more]
      omega

theorem ticks_split {first middle last : Nat} (before : first ≤ middle) (after : middle ≤ last) :
    ticks start bus first last = ticks start bus first middle + ticks start bus middle last := by
  have total : last - first = (middle - first) + (last - middle) := by omega
  have place : first + (middle - first) = middle := by omega
  unfold ticks
  rw [total, ticksIn_add, place]

theorem mtimeQ_add {first cycles : Nat}
    (others : ∀ cycle, first ≤ cycle → cycle < first + cycles → ¬writesTime (bus cycle)) :
    (circuit.runFrom start bus (first + cycles)).mtimeQ =
      (circuit.runFrom start bus first).mtimeQ + BitVec.ofNat 64 (ticksIn start bus first cycles)
    := by
  induction cycles with
  | zero => exact (BitVec.add_zero _).symm
  | succ cycles ih =>
      have before := ih fun cycle above below => others cycle above (by omega)
      rw [← Nat.add_assoc, circuit.runFrom_succ]
      refine (mtime_next _ _ (others (first + cycles) (by omega) (by omega))).trans ?_
      rw [before, ticksIn, BitVec.ofNat_add, BitVec.add_assoc]

theorem mtimeAt_add {first cycles : Nat}
    (others : ∀ cycle, first ≤ cycle → cycle < first + cycles → ¬writesTime (bus cycle))
    (noWrap : mtimeAt start bus first + ticksIn start bus first cycles < 2 ^ 64) :
    mtimeAt start bus (first + cycles) =
      mtimeAt start bus first + ticksIn start bus first cycles := by
  unfold mtimeAt at *
  rw [mtimeQ_add others, BitVec.toNat_add, BitVec.toNat_ofNat, Nat.add_mod_mod,
    Nat.mod_eq_of_lt noWrap]

theorem mtimeAt_eq {first last : Nat} (order : first ≤ last)
    (others : ∀ cycle, first ≤ cycle → cycle < last → ¬writesTime (bus cycle))
    (noWrap : mtimeAt start bus first + ticks start bus first last < 2 ^ 64) :
    mtimeAt start bus last = mtimeAt start bus first + ticks start bus first last := by
  obtain ⟨cycles, rfl⟩ := Nat.exists_eq_add_of_le order
  have length : first + cycles - first = cycles := by omega
  unfold ticks at noWrap ⊢
  rw [length] at noWrap ⊢
  exact mtimeAt_add others noWrap

theorem mtimeAt_add_ticks {first middle last : Nat} (before : first ≤ middle)
    (after : middle ≤ last)
    (others : ∀ cycle, first ≤ cycle → cycle < last → ¬writesTime (bus cycle))
    (noWrap : mtimeAt start bus first + ticks start bus first last < 2 ^ 64) :
    mtimeAt start bus middle + ticks start bus middle last =
      mtimeAt start bus first + ticks start bus first last := by
  have split : ticks start bus first last = _ := ticks_split before after
  have reached : mtimeAt start bus middle = _ :=
    mtimeAt_eq before (fun cycle above below => others cycle above (by omega)) (by omega)
  omega

end Ticks

/-! The calls of a run -/

theorem not_writesTime_of_reads {addr : BitVec 32} {bus : ApbIn}
    (reads : mtimerBus.reads addr bus) : ¬writesTime bus := by
  simp [writesTime, writes, reads.2.2.1]

theorem high_read (state : State) (bus : ApbIn)
    (reads : mtimerBus.reads (mtimerBase + mtimeHighAddrOfs) bus) :
    mtimerBus.data (out state bus) = state.mtimeQ.extractLsb' 32 32 := by
  have selected : register ((mtimerBase + mtimeHighAddrOfs).extractLsb' 2 3) = .mTimeHigh := by
    decide
  exact register_read selected reads

theorem low_read (state : State) (bus : ApbIn)
    (reads : mtimerBus.reads (mtimerBase + mtimeLowAddrOfs) bus) :
    mtimerBus.data (out state bus) = state.mtimeQ.extractLsb' 0 32 := by
  have selected : register ((mtimerBase + mtimeLowAddrOfs).extractLsb' 2 3) = .mTimeLow := by
    decide
  exact register_read selected reads

structure Sample where
  first : Nat
  second : Nat
  value : BitVec 64

/-- Successive calls of `counter`, each given by the cycles of its two reads and the value that
it returns, in a run without writes to `mtime`. -/
inductive Samples (start : State) (bus : Nat → ApbIn) : Nat → List Sample → Nat → Prop
  | none (cycle : Nat) : Samples start bus cycle [] cycle
  | call {sample : Sample} {rest : List Sample} {cycle next last : Nat} :
      Performs circuit mtimerBus (fun bus => ¬writesTime bus) start bus MTimer.counter cycle
        [sample.first, sample.second] next sample.value →
      Samples start bus next rest last → Samples start bus cycle (sample :: rest) last

variable {start : State} {bus : Nat → ApbIn}

structure Torn (start : State) (bus : Nat → ApbIn) (sample : Sample) : Prop where
  order : sample.first < sample.second
  value : sample.value.toNat = mtimeAt start bus sample.first / 2 ^ 32 * 2 ^ 32 +
    mtimeAt start bus sample.second % 2 ^ 32

theorem high_toNat (value : BitVec 64) :
    (value.extractLsb' 32 32).toNat = value.toNat / 2 ^ 32 := by
  rw [BitVec.extractLsb'_toNat, Nat.shiftRight_eq_div_pow]
  exact Nat.mod_eq_of_lt (by omega)

theorem low_toNat (value : BitVec 64) : (value.extractLsb' 0 32).toNat = value.toNat % 2 ^ 32 := by
  rw [BitVec.extractLsb'_toNat, Nat.shiftRight_zero]

theorem counter_call {sample : Sample} {cycle last : Nat}
    (performs : Performs circuit mtimerBus (fun bus => ¬writesTime bus) start bus MTimer.counter
      cycle [sample.first, sample.second] last sample.value) :
    Torn start bus sample ∧ cycle ≤ sample.first ∧ sample.second < last ∧
      Passes (fun bus => ¬writesTime bus) bus cycle last := by
  obtain ⟨first, later, listed, passes, reads, performs⟩ := performs.of_read
  obtain ⟨second, later', listed', passes', reads', performs⟩ := performs.of_read
  obtain ⟨rfl, value, passes''⟩ := performs.of_done
  simp only [List.cons.injEq] at listed
  obtain ⟨rfl, rfl⟩ := listed
  simp only [List.cons.injEq, and_true] at listed'
  subst listed'
  have high := high_read (circuit.runFrom start bus sample.first) _ reads
  have low := low_read (circuit.runFrom start bus sample.second) _ reads'
  have quiet := not_writesTime_of_reads reads
  have quiet' := not_writesTime_of_reads reads'
  refine ⟨⟨passes'.1, ?_⟩, passes.1, passes''.1, ?_⟩
  · rw [value, setWidth_append, toNat_append]
    change (mtimerBus.data (out _ _)).toNat * _ + (mtimerBus.data (out _ _)).toNat = _
    rw [high, low, high_toNat, low_toNat]
    rfl
  · exact passes.append quiet (passes'.append quiet' passes'')

structure Samples.Within (start : State) (bus : Nat → ApbIn) (first last : Nat)
    (sample : Sample) : Prop where
  torn : Torn start bus sample
  after : first ≤ sample.first
  before : sample.second < last

theorem Samples.spec {first last : Nat} {samples : List Sample}
    (runs : Samples start bus first samples last) :
    Passes (fun bus => ¬writesTime bus) bus first last ∧
      (∀ sample ∈ samples, Samples.Within start bus first last sample) ∧
      samples.Pairwise fun earlier later => earlier.second < later.first := by
  induction runs with
  | none cycle => exact ⟨.refl cycle, by simp, .nil⟩
  | @call sample rest cycle next last performs _ ih =>
      obtain ⟨torn, after, before, passes⟩ := counter_call performs
      obtain ⟨passes', within, ordered⟩ := ih
      have reach := passes.1
      have reach' := passes'.1
      refine ⟨passes.trans passes', ?_, ?_⟩
      · intro other member
        rcases List.mem_cons.mp member with rfl | later
        · exact ⟨torn, after, by omega⟩
        · have inside := within other later
          exact ⟨inside.torn, le_trans reach inside.after, inside.before⟩
      · refine List.pairwise_cons.mpr ⟨fun other later => ?_, ordered⟩
        have starts := (within other later).after
        omega

def Consistent (start : State) (bus : Nat → ApbIn) (sample : Sample) : Prop :=
  mtimeAt start bus sample.first ≤ sample.value.toNat ∧
    sample.value.toNat ≤ mtimeAt start bus sample.second

/-- At the second read the low word is no lower than at the first. -/
def LowKept (start : State) (bus : Nat → ApbIn) (sample : Sample) : Prop :=
  mtimeAt start bus sample.first % 2 ^ 32 +
    ticks start bus sample.first sample.second % 2 ^ 32 < 2 ^ 32

instance (start : State) (bus : Nat → ApbIn) (sample : Sample) :
    Decidable (LowKept start bus sample) :=
  inferInstanceAs (Decidable (_ < _))

theorem torn_between_iff {count elapsed value : Nat}
    (torn : value = count / 2 ^ 32 * 2 ^ 32 + (count + elapsed) % 2 ^ 32) :
    count ≤ value ∧ value ≤ count + elapsed ↔ count % 2 ^ 32 + elapsed % 2 ^ 32 < 2 ^ 32 := by
  omega

section Run

variable {first last : Nat}
  (passes : Passes (fun bus => ¬writesTime bus) bus first last)
  (noWrap : mtimeAt start bus first + ticks start bus first last < 2 ^ 64)

include passes noWrap

theorem consistent_iff {sample : Sample} (within : Samples.Within start bus first last sample) :
    Consistent start bus sample ↔ LowKept start bus sample := by
  obtain ⟨⟨order, value⟩, after, before⟩ := within
  have atFirst := mtimeAt_add_ticks after (by omega) passes.2 noWrap
  have rest : ticks start bus sample.first last = _ :=
    ticks_split (Nat.le_of_lt order) (Nat.le_of_lt before)
  have atSecond : mtimeAt start bus sample.second = _ :=
    mtimeAt_eq (Nat.le_of_lt order) (fun cycle above below => passes.2 cycle (by omega) (by omega))
      (by omega)
  unfold Consistent LowKept
  rw [atSecond] at value ⊢
  exact torn_between_iff value

theorem mtimeAt_le {early late : Nat} (after : first ≤ early) (order : early ≤ late)
    (before : late ≤ last) : mtimeAt start bus early ≤ mtimeAt start bus late := by
  have atEarly := mtimeAt_add_ticks after (by omega) passes.2 noWrap
  have rest : ticks start bus early last = _ := ticks_split order before
  have atLate : mtimeAt start bus late = _ :=
    mtimeAt_eq order (fun cycle above below => passes.2 cycle (by omega) (by omega)) (by omega)
  omega

theorem values_le {earlier later : Sample}
    (earlierWithin : Samples.Within start bus first last earlier)
    (laterWithin : Samples.Within start bus first last later)
    (order : earlier.second < later.first) (earlierConsistent : Consistent start bus earlier)
    (laterConsistent : Consistent start bus later) : earlier.value ≤ later.value := by
  have starts : first ≤ earlier.second :=
    le_trans earlierWithin.after (Nat.le_of_lt earlierWithin.torn.order)
  have ends : later.first ≤ last :=
    Nat.le_of_lt (lt_trans laterWithin.torn.order laterWithin.before)
  rw [BitVec.le_def]
  calc earlier.value.toNat
      ≤ mtimeAt start bus earlier.second := earlierConsistent.2
    _ ≤ mtimeAt start bus later.first :=
        mtimeAt_le passes noWrap starts (Nat.le_of_lt order) ends
    _ ≤ later.value.toNat := laterConsistent.1

end Run

/-- The calls of a run return consistent samples, and therefore values that never decrease,
exactly when the low word is in none of them lower at the second read than at the first. -/
theorem counter_consistent_iff (start : State) (bus : Nat → ApbIn) (first last : Nat)
    (samples : List Sample) (runs : Samples start bus first samples last)
    (noWrap : mtimeAt start bus first + ticks start bus first last < 2 ^ 64) :
    ((∀ sample ∈ samples, Consistent start bus sample) ∧
        samples.Pairwise fun earlier later => earlier.value ≤ later.value) ↔
      ∀ sample ∈ samples, LowKept start bus sample := by
  obtain ⟨passes, within, ordered⟩ := runs.spec
  have exact : (∀ sample ∈ samples, Consistent start bus sample) ↔
      ∀ sample ∈ samples, LowKept start bus sample :=
    forall₂_congr fun sample member => consistent_iff passes noWrap (within sample member)
  rw [← exact]
  refine ⟨fun both => both.1, fun consistent => ⟨consistent, ?_⟩⟩
  refine ordered.imp_of_mem fun {earlier later} earlierIn laterIn order => ?_
  exact values_le passes noWrap (within earlier earlierIn) (within later laterIn) order
    (consistent earlier earlierIn) (consistent later laterIn)

def startedAt (count : BitVec 32) : State :=
  circuit.next (circuit.next circuit.reset (.write (mtimerBase + mtimeLowAddrOfs) count))
    (.write 0x30210 1)

def sampleTwice (cycle : Nat) : ApbIn :=
  if cycle = 0 ∨ cycle = 2 then .read (mtimerBase + mtimeHighAddrOfs)
  else .read (mtimerBase + mtimeLowAddrOfs)

def samplesAt (early late : BitVec 64) : List Sample := [⟨0, 1, early⟩, ⟨2, 3, late⟩]

theorem sampleTwice_runs (count : BitVec 32) (early late : BitVec 64)
    (reads : early = (circuit.outFrom (startedAt count) sampleTwice 0).prdata ++
      (circuit.outFrom (startedAt count) sampleTwice 1).prdata)
    (reads' : late = (circuit.outFrom (startedAt count) sampleTwice 2).prdata ++
      (circuit.outFrom (startedAt count) sampleTwice 3).prdata) :
    Samples (startedAt count) sampleTwice 0 (samplesAt early late) 4 := by
  rw [← setWidth_append] at reads reads'
  subst reads reads'
  refine .call (.read ⟨rfl, rfl, rfl, rfl⟩ (.read ⟨rfl, rfl, rfl, rfl⟩ (.done _ 2))) ?_
  exact .call (.read ⟨rfl, rfl, rfl, rfl⟩ (.read ⟨rfl, rfl, rfl, rfl⟩ (.done _ 4))) (.none 4)

theorem counter_consistent_early :
    Consistent (startedAt 5) sampleTwice ⟨2, 3, 8⟩ :=
  ((counter_consistent_iff (startedAt 5) sampleTwice 0 4 (samplesAt 6 8)
    (sampleTwice_runs 5 6 8 (by decide) (by decide)) (by decide)).mpr (by decide)).1 _
    (by simp [samplesAt])

/-- At the roll-over of the low word the second call returns 0 after the first returned
`0xFFFFFFFE`. -/
theorem counter_torn :
    circuit.Reachable (startedAt 0xFFFFFFFD) ∧
      Samples (startedAt 0xFFFFFFFD) sampleTwice 0 (samplesAt 0xFFFFFFFE 0) 4 ∧
      mtimeAt (startedAt 0xFFFFFFFD) sampleTwice 2 = 0xFFFFFFFF ∧
      ¬Consistent (startedAt 0xFFFFFFFD) sampleTwice ⟨2, 3, 0⟩ ∧
      ¬(samplesAt 0xFFFFFFFE 0).Pairwise fun earlier later => earlier.value ≤ later.value := by
  refine ⟨.next _ (.next _ .reset), sampleTwice_runs _ _ _ (by decide) (by decide), by decide, ?_,
    by decide⟩
  rintro ⟨above, _⟩
  revert above
  decide

end Atalanta.Bsp
