import Atalanta.Bsp.OneShot
import Atalanta.Peripherals

/-! `OneShot::start` on the peripherals: a duration in CPU cycles becomes a compare value in
timer ticks, each of which takes the prescaled clock that the divider leaves. -/

namespace Atalanta.Bsp

open BusProgram RtPeripherals

-- a cycle in which neither the timer nor the divider is written
def Elsewhere (demux : ApbDemux) (input : Input) : Prop :=
  ApbMtimer.Untouched (mtimerRequest demux input) ∧ ¬writesDivider demux input

theorem schedule_uses (overflowChecks : Bool) (ticks : Except Panic (BitVec 64)) :
    (OneShot.schedule overflowChecks ticks).Uses fun addr => decode addr.toNat = 2#3 := by
  have timeHigh : decode (mtimerBase + mtimeHighAddrOfs).toNat = 2#3 := by decide
  have timeLow : decode (mtimerBase + mtimeLowAddrOfs).toNat = 2#3 := by decide
  have compareLow : decode (mtimerBase + mtimecmpLowAddrOfs).toNat = 2#3 := by decide
  have compareHigh : decode (mtimerBase + mtimecmpHighAddrOfs).toNat = 2#3 := by decide
  have control : decode (mtimerBase + mtimeCtrlAddrOfs).toNat = 2#3 := by decide
  have counts : MTimer.counter.Uses fun addr => decode addr.toNat = 2#3 :=
    And.intro timeHigh fun _ => And.intro timeLow fun _ => trivial
  refine counts.bind fun cnt => ?_
  cases ticks.bind (checkedAdd overflowChecks cnt) with
  | error panic => trivial
  | ok cmp =>
      exact And.intro compareLow (And.intro compareHigh (And.intro compareLow
        (And.intro control fun _ => And.intro control trivial)))

theorem divider_run {demux : ApbDemux} {start : State} {input : Nat → Input} {first last : Nat}
    (passes : Passes (fun step => ¬writesDivider demux step) input first last) :
    ((circuit demux).runFrom start input last).cfgRegs =
      ((circuit demux).runFrom start input first).cfgRegs := by
  have steady : ∀ state step, ¬writesDivider demux step →
      state.cfgRegs = ((circuit demux).runFrom start input first).cfgRegs →
      ((circuit demux).next state step).cfgRegs =
        ((circuit demux).runFrom start input first).cfgRegs :=
    fun state step quiet same => (divider_kept quiet state).trans same
  exact passes.keeps steady rfl last passes.1 (Nat.le_refl last)

theorem mtimer_passes {demux : ApbDemux} {input : Nat → Input} {first last : Nat}
    (passes : Passes (Elsewhere demux) input first last) :
    Passes ApbMtimer.Untouched (mtimerPort demux input) first last :=
  ⟨passes.1, fun cycle above below => (passes.2 cycle above below).1⟩

section Composite

variable {demux : ApbDemux} (documented : demux.Documented) {start : State} {input : Nat → Input}
  {first last : Nat} {accesses : List Nat}

include documented

theorem mtimer_project {β : Type} {program : Driver β} {value : β}
    (uses : program.Uses fun addr => decode addr.toNat = 2#3)
    (performs : Performs (circuit demux) periphBus (Elsewhere demux) start input program first
      accesses last value) :
    Performs ApbMtimer.circuit mtimerBus ApbMtimer.Untouched start.mtimer
      (mtimerPort demux input) program first accesses last value := by
  have waits : ∀ step, Elsewhere demux step → ApbMtimer.Untouched (mtimerRequest demux step) :=
    fun step other => other.1
  have selected : ∀ addr step, decode addr.toNat = 2#3 → step.apb.paddr = addr →
      mtimerRequest demux step = step.apb := by
    rintro addr step port rfl
    exact apbOut_selected documented port
  have reads : ∀ addr step, decode addr.toNat = 2#3 → periphBus.reads addr step →
      mtimerBus.reads addr (mtimerRequest demux step) := by
    intro addr step port reading
    rw [selected addr step port reading.2.2.2]
    exact reading
  have answers : ∀ cycle addr, decode addr.toNat = 2#3 → periphBus.reads addr (input cycle) →
      periphBus.data ((circuit demux).outFrom start input cycle) =
        mtimerBus.data (ApbMtimer.circuit.outFrom start.mtimer
          (fun cycle => mtimerRequest demux (input cycle)) cycle) := by
    rintro cycle addr port ⟨_, _, _, addressed⟩
    have here : decode (input cycle).apb.paddr.toNat = 2#3 := addressed ▸ port
    refine (prdata_of_port documented _ here).trans ?_
    rw [slaves, if_neg (by decide), if_pos rfl, mtimer_runFrom]
    rfl
  have writes : ∀ addr data step, decode addr.toNat = 2#3 → periphBus.writes addr data step →
      mtimerBus.writes addr data (mtimerRequest demux step) := by
    intro addr data step port write
    change step.apb = _ at write
    exact (selected addr step port (by rw [write]; rfl)).trans write
  have projected := Performs.project waits reads answers writes uses performs
  exact projected

end Composite

/-- Prescaler and divider of the timer, and the CPU cycles that one of its ticks takes. -/
def tickCycles (state : State) : Nat :=
  state.cfgRegs.divQ.toNat * (state.mtimer.prescalerQ.toNat + 1)

/-- A call returns normally with the interrupt due within one tick of the duration after the
counter value it has sampled, and leaves the timer enabled with its prescaler. -/
structure Schedules (demux : ApbDemux) (start : State) (input : Nat → Input)
    (duration : BitVec 64) (first hi lo last : Nat) (result : Except Panic Unit) : Prop where
  returned : result = .ok ()
  due : ∃ k, ((circuit demux).runFrom start input last).mtimer.mtimecmpQ.toNat =
      (sampled start.mtimer (mtimerPort demux input) hi lo).toNat + k ∧
    k * tickCycles ((circuit demux).runFrom start input first) ≤ duration.toNat ∧
    duration.toNat < (k + 1) * tickCycles ((circuit demux).runFrom start input first)
  enabled : ((circuit demux).runFrom start input last).mtimer.enableQ = true
  prescaler : ((circuit demux).runFrom start input last).mtimer.prescalerQ =
    ((circuit demux).runFrom start input first).mtimer.prescalerQ

theorem ticks_due_iff {duration divider prescaler : Nat} (divides : 0 < divider) :
    (duration / divider * (divider * (prescaler + 1)) ≤ duration ∧
        duration < (duration / divider + 1) * (divider * (prescaler + 1))) ↔
      prescaler = 0 ∨ duration < divider := by
  have below : duration / divider * divider ≤ duration := Nat.div_mul_le_self duration divider
  have above : duration < (duration / divider + 1) * divider := by
    rw [Nat.mul_comm]
    exact Nat.lt_mul_div_succ duration divides
  constructor
  · rintro ⟨reached, _⟩
    by_contra other
    obtain ⟨scaled, long⟩ := not_or.mp other
    have one : 1 * divider ≤ duration / divider * divider :=
      Nat.mul_le_mul_right divider (Nat.div_pos (by omega) divides)
    have twice : duration / divider * (divider * 2) ≤
        duration / divider * (divider * (prescaler + 1)) :=
      Nat.mul_le_mul_left _ (Nat.mul_le_mul_left _ (by omega))
    rw [← Nat.mul_assoc] at twice
    rw [Nat.add_mul] at above
    omega
  · rintro (unscaled | short)
    · rw [unscaled, Nat.zero_add, Nat.mul_one]
      exact ⟨below, above⟩
    · rw [Nat.div_eq_of_lt short, Nat.zero_mul, Nat.zero_add, Nat.one_mul]
      have wide : divider * 1 ≤ divider * (prescaler + 1) := Nat.mul_le_mul_left _ (by omega)
      exact ⟨Nat.zero_le _, by omega⟩

/-- `start` schedules the duration exactly when the timer is not prescaled, or when the duration
is shorter than one clock of the peripherals. -/
theorem one_shot_iff (demux : ApbDemux) (documented : demux.Documented) (overflowChecks : Bool)
    (start : State) (input : Nat → Input) (duration : BitVec 64) (first div hi lo last : Nat)
    (rest : List Nat) (result : Except Panic Unit)
    (divides : ((circuit demux).runFrom start input first).cfgRegs.divQ ≠ 0)
    (performs : Performs (circuit demux) periphBus (Elsewhere demux) start input
      (OneShot.start overflowChecks duration) first (div :: hi :: lo :: rest) last result)
    (noOverflow : (sampled start.mtimer (mtimerPort demux input) hi lo).toNat +
      duration.toNat / ((circuit demux).runFrom start input first).cfgRegs.divQ.toNat < 2 ^ 64) :
    Schedules demux start input duration first hi lo last result ↔
      ((circuit demux).runFrom start input first).mtimer.prescalerQ = 0 ∨
        duration.toNat < ((circuit demux).runFrom start input first).cfgRegs.divQ.toNat := by
  rw [OneShot.start_eq] at performs
  obtain ⟨middle, value, earlier, later, listed, reads, schedules⟩ := performs.of_bind
  obtain ⟨_, rfl, before, reading, after, rfl⟩ := pclkDiv_performed documented reads
  obtain ⟨rfl, rfl⟩ := List.cons.inj listed
  rw [divider_run (before.mono fun _ other => other.2)] at schedules
  obtain ⟨ticks, divided, quotient⟩ := checkedDiv_widened (by decide : 8 ≤ 64) duration divides
  rw [divided] at schedules
  rw [← quotient] at noOverflow
  have scheduled := mtimer_project documented (schedule_uses _ _) schedules
  obtain ⟨returned, mtimecmp, enabled, prescaler⟩ := schedule_performed scheduled noOverflow
  rw [← mtimer_runFrom] at mtimecmp enabled prescaler
  have reached : ((circuit demux).runFrom start input last).mtimer.mtimecmpQ.toNat =
      (sampled start.mtimer (mtimerPort demux input) hi lo).toNat + ticks.toNat := by
    rw [mtimecmp, BitVec.toNat_add, Nat.mod_eq_of_lt noOverflow]
  have kept : (ApbMtimer.circuit.runFrom start.mtimer (mtimerPort demux input) middle).prescalerQ =
      ((circuit demux).runFrom start input first).mtimer.prescalerQ := by
    have untouched : Passes ApbMtimer.Untouched (mtimerPort demux input) first middle := by
      refine (mtimer_passes before).append (ApbMtimer.untouched_of_quiet ?_) (mtimer_passes after)
      refine mtimer_untouched documented ?_
      rw [reading.2.2.2]
      decide
    rw [mtimer_runFrom]
    exact prescaler_quiet untouched
  have positive : 0 < ((circuit demux).runFrom start input first).cfgRegs.divQ.toNat :=
    BitVec.toNat_pos_of_ne_zero divides
  have unscaled : ((circuit demux).runFrom start input first).mtimer.prescalerQ = 0 ↔
      ((circuit demux).runFrom start input first).mtimer.prescalerQ.toNat = 0 :=
    BitVec.toNat_inj.symm
  rw [unscaled, ← ticks_due_iff positive, ← quotient]
  constructor
  · rintro ⟨_, ⟨k, due, within⟩, _, _⟩
    obtain rfl : k = ticks.toNat := by omega
    exact within
  · intro within
    exact ⟨returned, ⟨_, reached, within⟩, enabled, prescaler.trans kept⟩

-- the peripherals after reset and a call of `enable_with_prescaler`
def prescaled (prescaler : BitVec 32) : State :=
  (circuit gatingDemux).next (circuit gatingDemux).reset
    (accessing (.write (mtimerBase + mtimeCtrlAddrOfs) (prescaler <<< 8 ||| 0b1)))

def starting (cmp : BitVec 32) (control : BitVec 32) (cycle : Nat) : Input :=
  accessing (match cycle with
    | 0 => .read (cfgBase + periphClkDivOfs)
    | 1 => .read (mtimerBase + mtimeHighAddrOfs)
    | 2 => .read (mtimerBase + mtimeLowAddrOfs)
    | 3 => .write (mtimerBase + mtimecmpLowAddrOfs) (BitVec.allOnes 32)
    | 4 => .write (mtimerBase + mtimecmpHighAddrOfs) 0
    | 5 => .write (mtimerBase + mtimecmpLowAddrOfs) cmp
    | 6 => .read (mtimerBase + mtimeCtrlAddrOfs)
    | 7 => .write (mtimerBase + mtimeCtrlAddrOfs) control
    | _ => .idle)

theorem starting_performs :
    Performs (circuit gatingDemux) periphBus (Elsewhere gatingDemux) (prescaled 0)
      (starting 102 1) (OneShot.start true 100) 0 [0, 1, 2, 3, 4, 5, 6, 7] 8 (.ok ()) := by
  refine .read ⟨rfl, rfl, rfl, rfl⟩ (.read ⟨rfl, rfl, rfl, rfl⟩ (.read ⟨rfl, rfl, rfl, rfl⟩ ?_))
  exact .write rfl (.write rfl (.write rfl (.read ⟨rfl, rfl, rfl, rfl⟩ (.write rfl (.done _ 8)))))

theorem one_shot_unscaled : Schedules gatingDemux (prescaled 0) (starting 102 1) 100 0 1 2 8
    (.ok ()) :=
  (one_shot_iff gatingDemux gatingDemux_documented true (prescaled 0) (starting 102 1) 100 0 0 1 2
    8 _ (.ok ()) (by decide) starting_performs (by decide)).mpr (.inl (by decide))

/-- With a prescaler of 1 a duration of 100 CPU cycles takes 200. -/
theorem one_shot_late :
    (circuit gatingDemux).Reachable (prescaled 1) ∧
      Performs (circuit gatingDemux) periphBus (Elsewhere gatingDemux) (prescaled 1)
        (starting 101 0x101) (OneShot.start true 100) 0 [0, 1, 2, 3, 4, 5, 6, 7] 8 (.ok ()) ∧
      sampled (prescaled 1).mtimer (mtimerPort gatingDemux (starting 101 0x101)) 1 2 = 1 ∧
      tickCycles (prescaled 1) = 2 ∧
      ((circuit gatingDemux).runFrom (prescaled 1) (starting 101 0x101) 8).mtimer.mtimecmpQ = 101 ∧
      ¬Schedules gatingDemux (prescaled 1) (starting 101 0x101) 100 0 1 2 8 (.ok ()) := by
  have compare : ((circuit gatingDemux).runFrom (prescaled 1) (starting 101 0x101)
      8).mtimer.mtimecmpQ.toNat = 101 := by decide
  have counted : (sampled (prescaled 1).mtimer
      (mtimerPort gatingDemux (starting 101 0x101)) 1 2).toNat = 1 := by decide
  have slow : tickCycles ((circuit gatingDemux).runFrom (prescaled 1) (starting 101 0x101) 0) = 2 :=
    by decide
  refine ⟨.next _ .reset, ?_, by decide, by decide, by decide, ?_⟩
  · refine .read ⟨rfl, rfl, rfl, rfl⟩ (.read ⟨rfl, rfl, rfl, rfl⟩ (.read ⟨rfl, rfl, rfl, rfl⟩ ?_))
    exact .write rfl (.write rfl (.write rfl (.read ⟨rfl, rfl, rfl, rfl⟩
      (.write rfl (.done _ 8)))))
  · rintro ⟨_, ⟨k, due, reached, _⟩, _, _⟩
    rw [compare, counted] at due
    rw [slow] at reached
    change k * 2 ≤ 100 at reached
    omega

end Atalanta.Bsp
