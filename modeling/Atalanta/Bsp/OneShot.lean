import Atalanta.Bsp.Arithmetic
import Atalanta.Bsp.MTimerLo

/-! `OneShot` of `mtimer.rs`, and what it leaves in the timer. -/

namespace Atalanta.Bsp

open ApbMtimer BusProgram

namespace OneShot

def start (overflowChecks : Bool) (duration : BitVec 64) : Driver (Except Panic Unit) := do
  let pclkDiv ← pclkDiv
  let cnt ← MTimer.counter
  orPanic ((checkedDiv duration (pclkDiv.setWidth 64)).bind (checkedAdd overflowChecks cnt))
    fun cmp => do
      MTimer.setCmp cmp
      MTimer.enable
      return .ok ()

def arm (cmp : BitVec 64) : Driver (Except Panic Unit) := do
  MTimer.setCmp cmp
  MTimer.enable
  return .ok ()

/-- What `start` does once it knows how many ticks to wait for. -/
def schedule (overflowChecks : Bool) (ticks : Except Panic (BitVec 64)) :
    Driver (Except Panic Unit) := do
  let cnt ← MTimer.counter
  orPanic (ticks.bind (checkedAdd overflowChecks cnt)) arm

theorem start_eq (overflowChecks : Bool) (duration : BitVec 64) :
    start overflowChecks duration =
      pclkDiv.bind fun pclkDiv =>
        schedule overflowChecks (checkedDiv duration (pclkDiv.setWidth 64)) := rfl

end OneShot

def writesControl (bus : ApbIn) : Prop := writes bus = true ∧ register (intAddr bus) = .ctrl

theorem prescaler_kept (state : State) (bus : ApbIn) (other : ¬writesControl bus) :
    (next state bus).prescalerQ = state.prescalerQ := by
  cases strobe : writes bus with
  | false => exact (kept_of_quiet state bus strobe).2.1
  | true =>
      rw [next_of_write state bus strobe]
      cases addressed : register (intAddr bus) with
      | ctrl => exact absurd ⟨strobe, addressed⟩ other
      | _ => rfl

theorem next_control (state : State) (data : BitVec 32) :
    next state (.write (mtimerBase + mtimeCtrlAddrOfs) data) =
      { state with
        enableQ := data.getLsbD 0
        prescalerQ := data.extractLsb' 8 3
        counterQ := 0 } := by
  have selected : register ((mtimerBase + mtimeCtrlAddrOfs).extractLsb' 2 3) = .ctrl := by decide
  rw [next_of_write state _ rfl, intAddr, ApbIn.write, selected]

theorem control_prescaler (state : State) (mask : BitVec 32) (low : mask.extractLsb' 8 3 = 0) :
    (ctrlWord state ||| mask).extractLsb' 8 3 = state.prescalerQ := by
  have field : (ctrlWord state).extractLsb' 8 3 = state.prescalerQ := by
    apply BitVec.eq_of_getLsbD_eq
    intro bit within
    simp [ctrlWord, within, show 8 + bit < 32 by omega]
  rw [BitVec.extractLsb'_or, field, low]
  exact BitVec.or_zero

section Run

variable {start : State} {bus : Nat → ApbIn} {first last : Nat} {accesses : List Nat}

theorem control_kept {β : Type} {program : Driver β} {value : β}
    (performs : Performs circuit mtimerBus Untouched start bus program first accesses last value)
    (only : program.OnlyWrites fun addr data => ¬writesControl (.write addr data)) :
    (circuit.runFrom start bus last).prescalerQ = (circuit.runFrom start bus first).prescalerQ := by
  refine field_kept prescaler_kept (fun step touched => ⟨touched.1, ?_⟩) performs only
  simp [touched.2]

theorem prescaler_quiet {first last : Nat} (passes : Passes Untouched bus first last) :
    (circuit.runFrom start bus last).prescalerQ = (circuit.runFrom start bus first).prescalerQ :=
  control_kept (passes.performs (.done () last)) trivial

theorem control_read (state : State) (bus : ApbIn)
    (reads : mtimerBus.reads (mtimerBase + mtimeCtrlAddrOfs) bus) :
    mtimerBus.data (out state bus) = ctrlWord state := by
  have selected : register ((mtimerBase + mtimeCtrlAddrOfs).extractLsb' 2 3) = .ctrl := by decide
  exact register_read selected reads

theorem enable_performed
    (performs : Performs circuit mtimerBus Untouched start bus MTimer.enable first accesses last
      ()) :
    (circuit.runFrom start bus last).enableQ = true ∧
      (circuit.runFrom start bus last).prescalerQ =
        (circuit.runFrom start bus first).prescalerQ := by
  obtain ⟨read, _, _, before, reads, performs⟩ := performs.of_read
  obtain ⟨write, _, _, between, writesBack, performs⟩ := performs.of_write
  obtain ⟨_, _, after⟩ := performs.of_done
  have shown : mtimerBus.data (circuit.outFrom start bus read) = _ := control_read _ _ reads
  have stored : circuit.runFrom start bus (write + 1) =
      next (circuit.runFrom start bus write)
        (.write (mtimerBase + mtimeCtrlAddrOfs)
          (ctrlWord (circuit.runFrom start bus read) ||| 1)) := by
    rw [circuit.runFrom_succ, show bus write = _ from writesBack, shown]
    rfl
  rw [next_control] at stored
  have counts : Counts start bus (write + 1) last := counts_of_passes after
  constructor
  · rw [counts.enable, stored]
    simp
  · rw [prescaler_quiet after, stored, ← prescaler_quiet before]
    exact control_prescaler _ _ (by decide)

/-- The value that `counter` returns from reads in these two cycles. -/
def sampled (start : State) (bus : Nat → ApbIn) (hi lo : Nat) : BitVec 64 :=
  (circuit.runFrom start bus hi).mtimeQ.extractLsb' 32 32 ++
    (circuit.runFrom start bus lo).mtimeQ.extractLsb' 0 32

theorem setCmp_performed {cmp : BitVec 64}
    (performs : Performs circuit mtimerBus Untouched start bus (MTimer.setCmp cmp) first accesses
      last ()) : (circuit.runFrom start bus last).mtimecmpQ = cmp := by
  have quiet := performs.mono fun _ => not_writesCompare_of_untouched
  have ends := (setHalves_triple _ ((cmp >>> 32).setWidth 32) (cmp.setWidth 32) start bus first
    accesses last () quiet rfl).2
  exact ends.trans (words_append cmp)

theorem setCmp_control (cmp : BitVec 64) :
    (MTimer.setCmp cmp).OnlyWrites fun addr data => ¬writesControl (.write addr data) := by
  have low : register ((mtimerBase + mtimecmpLowAddrOfs).extractLsb' 2 3) ≠ .ctrl := by decide
  have high : register ((mtimerBase + mtimecmpHighAddrOfs).extractLsb' 2 3) ≠ .ctrl := by decide
  exact And.intro (low ·.2) (And.intro (high ·.2) (And.intro (low ·.2) trivial))

theorem schedule_performed {overflowChecks : Bool} {ticks : BitVec 64} {hi lo : Nat}
    {rest : List Nat} {result : Except Panic Unit}
    (performs : Performs circuit mtimerBus Untouched start bus
      (OneShot.schedule overflowChecks (.ok ticks)) first (hi :: lo :: rest) last result)
    (noOverflow : (sampled start bus hi lo).toNat + ticks.toNat < 2 ^ 64) :
    result = .ok () ∧
      (circuit.runFrom start bus last).mtimecmpQ = sampled start bus hi lo + ticks ∧
      (circuit.runFrom start bus last).enableQ = true ∧
      (circuit.runFrom start bus last).prescalerQ =
        (circuit.runFrom start bus first).prescalerQ := by
  obtain ⟨_, _, listed, before, readsHigh, performs⟩ := performs.of_read
  obtain ⟨_, _, listed', between, readsLow, performs⟩ := performs.of_read
  simp only [List.cons.injEq] at listed listed'
  obtain ⟨rfl, rfl⟩ := listed
  obtain ⟨rfl, rfl⟩ := listed'
  have high : mtimerBus.data (circuit.outFrom start bus hi) = _ := high_read _ _ readsHigh
  have low : mtimerBus.data (circuit.outFrom start bus lo) = _ := low_read _ _ readsLow
  have continues : Performs circuit mtimerBus Untouched start bus
      (OneShot.arm (sampled start bus hi lo + ticks)) (lo + 1) rest last result := by
    have sum := checkedAdd_of_lt overflowChecks noOverflow
    rw [sampled, ← high, ← low, ← setWidth_append] at sum ⊢
    have program := congrArg (orPanic · OneShot.arm) sum
    exact Eq.mp (congrArg (Performs circuit mtimerBus Untouched start bus · (lo + 1) rest last
      result) program) performs
  obtain ⟨middle, _, _, _, _, compares, continues⟩ := continues.of_bind
  obtain ⟨ended, _, _, _, _, enables, continues⟩ := continues.of_bind
  obtain ⟨_, returned, after⟩ := continues.of_done
  have counts : Counts start bus ended last := counts_of_passes after
  obtain ⟨enabled, prescaler⟩ := enable_performed enables
  refine ⟨returned, ?_, counts.enable.trans enabled, ?_⟩
  · have kept := compare_kept enables fun _ => And.intro (control_other _) trivial
    rw [counts.mtimecmp, kept, setCmp_performed compares]
  · have reading : Passes Untouched bus first (lo + 1) := by
      have quiet : ∀ {addr step}, mtimerBus.reads addr step → Untouched step := fun reads =>
        untouched_of_quiet (by simp [writes, reads.2.2.1])
      exact before.append (quiet readsHigh) (between.append (quiet readsLow) (.refl _))
    rw [prescaler_quiet after, prescaler, control_kept compares (setCmp_control _),
      prescaler_quiet reading]

end Run

end Atalanta.Bsp
