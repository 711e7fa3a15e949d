import Atalanta.ApbMtimer.Stopped
import Atalanta.Bsp.MTimerSet

/-! `MTimerLo`: the low words of the timer as a timer of 32 bits. The hardware goes on comparing
64 bits, of which the driver writes the high ones in `set_cmp` and `reset` only. -/

namespace Atalanta.Bsp

open ApbMtimer BusProgram

namespace MTimerLo

inductive Call
  | setCounter (cnt : BitVec 32)
  | setCmp (cmp : BitVec 32)
  | enable
  | enableWithPrescaler (prescaler : BitVec 32)
  | disable
  | reset
deriving DecidableEq, Repr

def Call.driver : Call → Driver Unit
  | .setCounter cnt => MTimerLo.setCounter cnt
  | .setCmp cmp => MTimerLo.setCmp cmp
  | .enable => MTimerLo.enable
  | .enableWithPrescaler prescaler => MTimerLo.enableWithPrescaler prescaler
  | .disable => MTimerLo.disable
  | .reset => MTimerLo.reset

def drivers : List Call → Driver Unit
  | [] => pure ()
  | call :: calls => do
    call.driver
    drivers calls

/-- The 64-bit compare value that a call leaves. -/
def Call.compare (compare : BitVec 64) : Call → BitVec 64
  | .setCmp cmp => 0#32 ++ cmp
  | .reset => BitVec.allOnes 64
  | _ => compare

def compareAfter (compare : BitVec 64) (calls : List Call) : BitVec 64 :=
  calls.foldl Call.compare compare

end MTimerLo

open MTimerLo

section Run

variable {start : State} {bus : Nat → ApbIn} {first last : Nat} {accesses : List Nat}

/-- What only writes to some registers change stays as it is while a program writes others. -/
theorem field_kept {β τ : Type} {field : State → τ} {touches : ApbIn → Prop} {program : Driver β}
    {value : β} (kept : ∀ state step, ¬touches step → field (next state step) = field state)
    (isWrite : ∀ step, touches step →
      writes step = true ∧ register (intAddr step) ≠ .unimplemented)
    (performs : Performs circuit mtimerBus Untouched start bus program first accesses last value)
    (only : program.OnlyWrites fun addr data => ¬touches (.write addr data)) :
    field (circuit.runFrom start bus last) = field (circuit.runFrom start bus first) := by
  have passes := performs.passes only
  have steady : ∀ state step, (Untouched step ∨ (∃ addr, mtimerBus.reads addr step) ∨
      ∃ addr data, ¬touches (.write addr data) ∧ mtimerBus.writes addr data step) →
      field state = field (circuit.runFrom start bus first) →
      field (circuit.next state step) = field (circuit.runFrom start bus first) := by
    intro state step cycle same
    refine (kept state step fun touched => ?_).trans same
    obtain ⟨strobe, implemented⟩ := isWrite step touched
    rcases cycle with untouched | ⟨addr, reads⟩ | ⟨addr, data, other, write⟩
    · exact implemented (untouched strobe)
    · simp [writes, reads.2.2.1] at strobe
    · rw [show step = _ from write] at touched
      exact other touched
  exact passes.keeps steady rfl last passes.1 (Nat.le_refl last)

theorem compare_kept {β : Type} {program : Driver β} {value : β}
    (performs : Performs circuit mtimerBus Untouched start bus program first accesses last value)
    (only : program.OnlyWrites fun addr data => ¬writesCompare (.write addr data)) :
    (circuit.runFrom start bus last).mtimecmpQ = (circuit.runFrom start bus first).mtimecmpQ := by
  refine field_kept mtimecmp_kept (fun step touched => ⟨touched.1, ?_⟩) performs only
  rcases touched.2 with low | high
  · simp [low]
  · simp [high]

theorem control_other (data : BitVec 32) :
    ¬writesCompare (.write (mtimerBase + mtimeCtrlAddrOfs) data) := by
  rintro ⟨_, addressed⟩
  revert addressed
  exact (by decide : ¬(register ((mtimerBase + mtimeCtrlAddrOfs).extractLsb' 2 3) = .mTimeCmpLow ∨
    register ((mtimerBase + mtimeCtrlAddrOfs).extractLsb' 2 3) = .mTimeCmpHigh))

theorem low_other (data : BitVec 32) :
    ¬writesCompare (.write (mtimerBase + mtimeLowAddrOfs) data) := by
  rintro ⟨_, addressed⟩
  revert addressed
  exact (by decide : ¬(register ((mtimerBase + mtimeLowAddrOfs).extractLsb' 2 3) = .mTimeCmpLow ∨
    register ((mtimerBase + mtimeLowAddrOfs).extractLsb' 2 3) = .mTimeCmpHigh))

theorem call_compare (call : Call)
    (performs : Performs circuit mtimerBus Untouched start bus call.driver first accesses last ()) :
    (circuit.runFrom start bus last).mtimecmpQ =
      call.compare (circuit.runFrom start bus first).mtimecmpQ := by
  cases call with
  | setCounter cnt => exact compare_kept performs (And.intro (low_other cnt) trivial)
  | setCmp cmp =>
      have quiet := performs.mono fun _ => not_writesCompare_of_untouched
      exact (setHalves_triple _ 0#32 cmp start bus first accesses last () quiet rfl).2
  | enable => exact compare_kept performs fun _ => And.intro (control_other _) trivial
  | enableWithPrescaler prescaler =>
      exact compare_kept performs (And.intro (control_other _) trivial)
  | disable => exact compare_kept performs fun _ => And.intro (control_other _) trivial
  | reset => exact (reset_performed performs).mtimecmp

theorem calls_compare (calls : List Call) : ∀ {first : Nat} {accesses : List Nat},
    Performs circuit mtimerBus Untouched start bus (drivers calls) first accesses last () →
    (circuit.runFrom start bus last).mtimecmpQ =
      compareAfter (circuit.runFrom start bus first).mtimecmpQ calls := by
  induction calls with
  | nil =>
      intro first accesses performs
      exact compare_kept performs trivial
  | cons call calls ih =>
      intro first accesses performs
      obtain ⟨middle, _, _, _, _, performs, continues⟩ := performs.of_bind
      rw [ih continues, call_compare call performs]
      rfl

end Run

theorem compareAfter_cases (compare : BitVec 64) {calls : List Call}
    (compares : ∃ cmp, Call.setCmp cmp ∈ calls) :
    (∃ cmp : BitVec 32, compareAfter compare calls = 0#32 ++ cmp) ∨
      compareAfter compare calls = BitVec.allOnes 64 := by
  have settled : ∀ (calls : List Call) (compare : BitVec 64),
      ((∃ cmp : BitVec 32, compare = 0#32 ++ cmp) ∨ compare = BitVec.allOnes 64) →
      (∃ cmp : BitVec 32, compareAfter compare calls = 0#32 ++ cmp) ∨
        compareAfter compare calls = BitVec.allOnes 64 := by
    intro calls
    induction calls with
    | nil => exact fun _ known => known
    | cons call calls ih =>
        intro compare known
        refine ih (call.compare compare) ?_
        cases call with
        | setCmp cmp => exact .inl ⟨cmp, rfl⟩
        | reset => exact .inr rfl
        | _ => exact known
  obtain ⟨cmp, member⟩ := compares
  obtain ⟨before, after, rfl⟩ := List.append_of_mem member
  rw [compareAfter, List.foldl_append]
  exact settled after _ (.inl ⟨cmp, rfl⟩)

/-! The hidden high word of the count -/

/-- The low word does not pass its maximum between the two cycles. -/
def NoRollOver (start : State) (bus : Nat → ApbIn) (first last : Nat) : Prop :=
  ∀ cycle, first ≤ cycle → cycle < last →
    ticksNow (circuit.runFrom start bus cycle) (bus cycle) = true →
      (circuit.runFrom start bus cycle).mtimeQ.extractLsb' 0 32 ≠ BitVec.allOnes 32

theorem high_zero_next {state : State} {bus : ApbIn} (zero : state.mtimeQ.extractLsb' 32 32 = 0)
    (stays : ticksNow state bus = true → state.mtimeQ.extractLsb' 0 32 ≠ BitVec.allOnes 32)
    (clears : writes bus = true → register (intAddr bus) = .mTimeHigh → bus.pwdata = 0) :
    (next state bus).mtimeQ.extractLsb' 32 32 = 0 := by
  by_cases written : writesTime bus
  · rw [next_of_write state bus written.1]
    rcases written.2 with low | high
    · rw [low]
      simpa using zero
    · rw [high]
      simpa using clears written.1 high
  · rw [mtime_next state bus written]
    cases due : ticksNow state bus with
    | false => simpa using zero
    | true =>
        have below := (state.mtimeQ.extractLsb' 0 32).isLt
        have short : (state.mtimeQ.extractLsb' 0 32).toNat ≠ 2 ^ 32 - 1 :=
          fun full => stays due (BitVec.eq_of_toNat_eq full)
        have halves := toNat_halves state.mtimeQ
        rw [zero] at halves
        apply BitVec.eq_of_toNat_eq
        rw [high_toNat, BitVec.toNat_add, halves]
        change ((0 * 2 ^ 32 + _) + 1) % _ / _ = 0
        omega

theorem call_clears (call : Call) :
    call.driver.OnlyWrites fun addr data =>
      register (addr.extractLsb' 2 3) = .mTimeHigh → data = 0 := by
  have control : register ((mtimerBase + mtimeCtrlAddrOfs).extractLsb' 2 3) ≠ .mTimeHigh := by
    decide
  have low : register ((mtimerBase + mtimeLowAddrOfs).extractLsb' 2 3) ≠ .mTimeHigh := by decide
  have compareLow : register ((mtimerBase + mtimecmpLowAddrOfs).extractLsb' 2 3) ≠ .mTimeHigh := by
    decide
  have compareHigh : register ((mtimerBase + mtimecmpHighAddrOfs).extractLsb' 2 3) ≠
      .mTimeHigh := by
    decide
  cases call with
  | setCounter cnt => exact And.intro (absurd · low) trivial
  | setCmp cmp =>
      exact And.intro (absurd · compareLow) (And.intro (absurd · compareHigh)
        (And.intro (absurd · compareLow) trivial))
  | enable => exact fun _ => And.intro (absurd · control) trivial
  | enableWithPrescaler prescaler => exact And.intro (absurd · control) trivial
  | disable => exact fun _ => And.intro (absurd · control) trivial
  | reset =>
      exact And.intro (absurd · control) (And.intro (absurd · low) (And.intro (fun _ => rfl)
        (And.intro (absurd · compareLow) (And.intro (absurd · compareHigh) trivial))))

theorem calls_clear (calls : List Call) :
    (drivers calls).OnlyWrites fun addr data =>
      register (addr.extractLsb' 2 3) = .mTimeHigh → data = 0 := by
  induction calls with
  | nil => trivial
  | cons call calls ih => exact (call_clears call).bind fun _ => ih

section Run

variable {start : State} {bus : Nat → ApbIn} {first last : Nat} {accesses : List Nat}

theorem calls_high_zero {calls : List Call}
    (performs : Performs circuit mtimerBus Untouched start bus (drivers calls) first accesses last
      ())
    (handedOver : (circuit.runFrom start bus first).mtimeQ.extractLsb' 32 32 = 0)
    (noRollOver : NoRollOver start bus first last) :
    (circuit.runFrom start bus last).mtimeQ.extractLsb' 32 32 = 0 := by
  obtain ⟨order, cycles⟩ := performs.passes (calls_clear calls)
  have reaches : ∀ cycle, first ≤ cycle → cycle ≤ last →
      (circuit.runFrom start bus cycle).mtimeQ.extractLsb' 32 32 = 0 := by
    intro cycle after before
    induction cycle, after using Nat.le_induction with
    | base => exact handedOver
    | succ cycle after ih =>
        refine high_zero_next (ih (by omega)) (noRollOver cycle after (by omega)) ?_
        intro strobe high
        rcases cycles cycle after (by omega) with
          untouched | ⟨addr, reads⟩ | ⟨addr, data, zero, write⟩
        · rw [untouched strobe] at high
          cases high
        · simp [writes, reads.2.2.1] at strobe
        · rw [show bus cycle = _ from write] at high ⊢
          exact zero high
  exact reaches last order (Nat.le_refl last)

def counterNow (state : State) : BitVec 32 :=
  (out state (.read (mtimerBase + mtimeLowAddrOfs))).prdata

def cmpNow (state : State) : BitVec 32 :=
  (out state (.read (mtimerBase + mtimecmpLowAddrOfs))).prdata

def LoTimer (start : State) (bus : Nat → ApbIn) (cycle : Nat) : Prop :=
  (circuit.outFrom start bus cycle).timerIrq = true ↔
    (circuit.runFrom start bus cycle).enableQ = true ∧
      cmpNow (circuit.runFrom start bus cycle) ≤ counterNow (circuit.runFrom start bus cycle)

theorem counterNow_eq (state : State) : counterNow state = state.mtimeQ.extractLsb' 0 32 := by
  have selected : register (intAddr (.read (mtimerBase + mtimeLowAddrOfs))) = .mTimeLow := by
    decide
  exact (prdata_of_reads state _ rfl).trans (congrArg (word state) selected)

theorem cmpNow_eq (state : State) : cmpNow state = state.mtimecmpQ.extractLsb' 0 32 := by
  have selected : register (intAddr (.read (mtimerBase + mtimecmpLowAddrOfs))) = .mTimeCmpLow := by
    decide
  exact (prdata_of_reads state _ rfl).trans (congrArg (word state) selected)

theorem read_performed {others : ApbIn → Prop} {addr value : BitVec 32} {reg : Register}
    (selected : register (addr.extractLsb' 2 3) = reg)
    (performs : Performs circuit mtimerBus others start bus (readU32 addr) first accesses last
      value) :
    ∃ cycle, accesses = [cycle] ∧ first ≤ cycle ∧ cycle < last ∧
      value = word (circuit.runFrom start bus cycle) reg := by
  obtain ⟨cycle, later, rfl, before, reading, performs⟩ := performs.of_read
  obtain ⟨rfl, rfl, after⟩ := performs.of_done
  exact ⟨cycle, rfl, before.1, after.1, register_read selected reading⟩

theorem counter_performed {others : ApbIn → Prop} {value : BitVec 32}
    (performs : Performs circuit mtimerBus others start bus MTimerLo.counter first accesses last
      value) :
    ∃ cycle, accesses = [cycle] ∧ first ≤ cycle ∧ cycle < last ∧
      value = counterNow (circuit.runFrom start bus cycle) := by
  have selected : register ((mtimerBase + mtimeLowAddrOfs).extractLsb' 2 3) = .mTimeLow := by
    decide
  simp only [counterNow_eq]
  exact read_performed selected performs

theorem cmp_performed {others : ApbIn → Prop} {value : BitVec 32}
    (performs : Performs circuit mtimerBus others start bus MTimerLo.cmp first accesses last
      value) :
    ∃ cycle, accesses = [cycle] ∧ first ≤ cycle ∧ cycle < last ∧
      value = cmpNow (circuit.runFrom start bus cycle) := by
  have selected : register ((mtimerBase + mtimecmpLowAddrOfs).extractLsb' 2 3) = .mTimeCmpLow := by
    decide
  simp only [cmpNow_eq]
  exact read_performed selected performs

/-- The hidden high words leave the comparison of the low ones as it is. -/
def HighWordsAgree (compare mtime : BitVec 64) : Prop :=
  if compare.extractLsb' 32 32 = 0 then
    mtime.extractLsb' 32 32 = 0 ∨ compare.extractLsb' 0 32 ≤ mtime.extractLsb' 0 32
  else mtime.extractLsb' 0 32 = BitVec.allOnes 32 → mtime.extractLsb' 32 32 = BitVec.allOnes 32

theorem le_halves (compare mtime : BitVec 64) :
    compare ≤ mtime ↔
      (compare.extractLsb' 32 32).toNat < (mtime.extractLsb' 32 32).toNat ∨
        compare.extractLsb' 32 32 = mtime.extractLsb' 32 32 ∧
          (compare.extractLsb' 0 32).toNat ≤ (mtime.extractLsb' 0 32).toNat := by
  have compareHalves := toNat_halves compare
  have mtimeHalves := toNat_halves mtime
  have compareLow := (compare.extractLsb' 0 32).isLt
  have mtimeLow := (mtime.extractLsb' 0 32).isLt
  rw [BitVec.le_def, ← BitVec.toNat_inj]
  omega

theorem highWordsAgree_iff {compare mtime : BitVec 64}
    (settled : (∃ cmp : BitVec 32, compare = 0#32 ++ cmp) ∨ compare = BitVec.allOnes 64) :
    (compare ≤ mtime ↔ compare.extractLsb' 0 32 ≤ mtime.extractLsb' 0 32) ↔
      HighWordsAgree compare mtime := by
  rw [le_halves, HighWordsAgree]
  have high := (mtime.extractLsb' 32 32).isLt
  have low := (mtime.extractLsb' 0 32).isLt
  rcases settled with ⟨cmp, rfl⟩ | rfl
  · have zero : (0#32).toNat = 0 := rfl
    have zero' : (0 : BitVec 32).toNat = 0 := rfl
    rw [high_append, low_append, if_pos (by rfl)]
    simp only [BitVec.le_def, ← BitVec.toNat_inj, zero, zero']
    omega
  · have ones : ((BitVec.allOnes 64).extractLsb' 32 32).toNat = 2 ^ 32 - 1 := by decide
    have ones' : ((BitVec.allOnes 64).extractLsb' 0 32).toNat = 2 ^ 32 - 1 := by decide
    have full : (BitVec.allOnes 32).toNat = 2 ^ 32 - 1 := rfl
    rw [if_neg (by decide)]
    simp only [BitVec.le_def, ← BitVec.toNat_inj, ones, ones', full]
    omega

theorem loTimer_iff {cycle : Nat}
    (settled : (∃ cmp : BitVec 32,
        (circuit.runFrom start bus cycle).mtimecmpQ = 0#32 ++ cmp) ∨
      (circuit.runFrom start bus cycle).mtimecmpQ = BitVec.allOnes 64) :
    LoTimer start bus cycle ↔
      ((circuit.runFrom start bus cycle).enableQ = true →
        HighWordsAgree (circuit.runFrom start bus cycle).mtimecmpQ
          (circuit.runFrom start bus cycle).mtimeQ) := by
  have raised : (circuit.outFrom start bus cycle).timerIrq = true ↔ _ := timerIrq_iff _
  rw [LoTimer, raised, counterNow_eq, cmpNow_eq, ← highWordsAgree_iff settled]
  tauto

end Run

/-- After calls with a `set_cmp` among them the interrupt line compares the low words exactly
when the hidden high words agree with that; so it does in every run that is handed over with a
high word of 0, does not roll over, and in which no `reset` follows the last `set_cmp`. -/
theorem mtimer_lo_iff (start : State) (bus : Nat → ApbIn) (calls : List Call) (first last : Nat)
    (accesses : List Nat) (compares : ∃ cmp, Call.setCmp cmp ∈ calls)
    (performs : Performs circuit mtimerBus Untouched start bus (drivers calls) first accesses last
      ()) :
    (LoTimer start bus last ↔
      ((circuit.runFrom start bus last).enableQ = true →
        HighWordsAgree (compareAfter (circuit.runFrom start bus first).mtimecmpQ calls)
          (circuit.runFrom start bus last).mtimeQ)) ∧
    ((circuit.runFrom start bus first).mtimeQ.extractLsb' 32 32 = 0 →
      NoRollOver start bus first last →
      (compareAfter (circuit.runFrom start bus first).mtimecmpQ calls).extractLsb' 32 32 = 0 →
      LoTimer start bus last) := by
  have compare := calls_compare calls performs
  have settled := compareAfter_cases (circuit.runFrom start bus first).mtimecmpQ compares
  rw [← compare] at settled ⊢
  have exact := loTimer_iff settled
  refine ⟨exact, fun handedOver noRollOver notReset => exact.mpr fun _ => ?_⟩
  rw [HighWordsAgree, if_pos notReset]
  exact .inl (calls_high_zero performs handedOver noRollOver)

def handedOver (high : BitVec 32) : State :=
  circuit.next (circuit.next circuit.reset (.write (mtimerBase + mtimeHighAddrOfs) high))
    (.write (mtimerBase + mtimeCtrlAddrOfs) 1)

def comparing (cmp : BitVec 32) (cycle : Nat) : ApbIn :=
  if cycle = 0 then .write (mtimerBase + mtimecmpLowAddrOfs) (BitVec.allOnes 32)
  else if cycle = 1 then .write (mtimerBase + mtimecmpHighAddrOfs) 0
  else if cycle = 2 then .write (mtimerBase + mtimecmpLowAddrOfs) cmp
  else .idle

theorem comparing_performs (start : State) (cmp : BitVec 32) :
    Performs circuit mtimerBus Untouched start (comparing cmp) (drivers [.setCmp cmp]) 0 [0, 1, 2] 3
      () :=
  .write rfl (.write rfl (.write rfl (.done () 3)))

theorem mtimer_lo_comparing : LoTimer (handedOver 0) (comparing 5) 3 :=
  (mtimer_lo_iff (handedOver 0) (comparing 5) [.setCmp 5] 0 3 [0, 1, 2] ⟨5, .head _⟩
    (comparing_performs _ _)).2 (by decide) (by unfold NoRollOver; decide) (by decide)

/-- Handed over at 2^32, the timer interrupts with a counter of 0 and a compare value of 5. -/
theorem mtimer_lo_early :
    circuit.Reachable (handedOver 1) ∧
      Performs circuit mtimerBus Untouched (handedOver 1) (comparing 5) (drivers [.setCmp 5]) 0
        [0, 1, 2] 3 () ∧
      (circuit.outFrom (handedOver 1) (comparing 5) 3).timerIrq = true ∧
      counterNow (circuit.runFrom (handedOver 1) (comparing 5) 3) = 0 ∧
      cmpNow (circuit.runFrom (handedOver 1) (comparing 5) 3) = 5 ∧
      ¬LoTimer (handedOver 1) (comparing 5) 3 := by
  refine ⟨.next _ (.next _ .reset), comparing_performs _ _, by decide, by decide, by decide, ?_⟩
  intro timer
  have raised : (circuit.outFrom (handedOver 1) (comparing 5) 3).timerIrq = true := by decide
  exact absurd (timer.mp raised).2 (by decide)

end Atalanta.Bsp
