import Atalanta.Testbench.UartFrames
import Mathlib.Tactic.IntervalCases

/-! The characters that one `uart_bus` prints of a line that another one drives, and how far the
two baud rates may be apart. -/

namespace Atalanta.Testbench.UartBus

open BitField Waveform

variable {bus : UartBus} {rx seen rxEn : Nat → Bool} {character : BitVec 8} {start horizon : Nat}

/-! One frame -/

-- relative to the falling edge of its start bit
def sampleTime (bus : UartBus) (i : Nat) : Nat :=
  bus.uartBaudPeriod / 2 + (i + 1) * bus.uartBaudPeriod

def finishTime (bus : UartBus) : Nat :=
  bus.sampleTime (if bus.parityEn then 9 else 8)

/-- The events of a frame, all of them by the time it is finished. -/
def outcome (bus : UartBus) (start : Nat) (error : Bool) (c : BitVec 8) : List UartEvent :=
  (if error then [.parityError (start + bus.sampleTime 8)] else []) ++
    [.written (start + bus.finishTime) c]

theorem sampleTime_eight_le_finishTime (bus : UartBus) : bus.sampleTime 8 ≤ bus.finishTime := by
  unfold finishTime sampleTime
  split <;> omega

theorem time_of_mem_outcome {error : Bool} {c : BitVec 8} {event : UartEvent}
    (member : event ∈ bus.outcome start error c) :
    start ≤ event.time ∧ event.time ≤ start + bus.finishTime := by
  have checked := sampleTime_eight_le_finishTime bus
  rw [outcome, List.mem_append, List.mem_singleton] at member
  rcases member with failed | rfl
  · split at failed
    · rw [List.mem_singleton.mp failed]
      exact ⟨Nat.le_add_right _ _, Nat.add_le_add_left checked _⟩
    · cases failed
  · exact ⟨Nat.le_add_right _ _, Nat.le_refl _⟩

theorem outcome_filter (error : Bool) (c : BitVec 8) :
    (bus.outcome start error c).filter (fun event => event.time ≤ start + bus.finishTime) =
      bus.outcome start error c :=
  List.filter_eq_self.mpr fun _ member => decide_eq_true (time_of_mem_outcome member).2

theorem outcome_injective {error error' : Bool} {c c' : BitVec 8}
    (same : bus.outcome start error c = bus.outcome start error' c') : error = error' ∧ c = c' := by
  obtain ⟨errors, written⟩ := List.append_inj' same rfl
  injection written with written
  injection written with _ characters
  refine ⟨?_, characters⟩
  cases error <;> cases error' <;> first | rfl | cases errors

theorem foldl_receiveBit (bus : UartBus) (rx : Nat → Bool) (start : Nat) (character : BitVec 8)
    (count : Nat) (inside : count ≤ 8) :
    ((List.range count).foldl (bus.receiveBit rx)
        (start + bus.uartBaudPeriod / 2, character)).1 =
      start + bus.uartBaudPeriod / 2 + count * bus.uartBaudPeriod ∧
    ∀ i < 8, ((List.range count).foldl (bus.receiveBit rx)
        (start + bus.uartBaudPeriod / 2, character)).2.getLsbD i =
      if i < count then rx (start + bus.sampleTime i) else character.getLsbD i := by
  induction count with
  | zero => exact ⟨by simp, fun i _ => rfl⟩
  | succ count ih =>
      obtain ⟨time, bits⟩ := ih (by omega)
      have sampled : start + bus.uartBaudPeriod / 2 + count * bus.uartBaudPeriod +
          bus.uartBaudPeriod = start + bus.sampleTime count := by
        rw [sampleTime, Nat.add_mul]
        omega
      rw [List.range_succ, List.foldl_append, List.foldl_cons, List.foldl_nil, receiveBit, time,
        sampled]
      refine ⟨by rw [sampleTime]; omega, fun i within => ?_⟩
      rw [getLsbD_putBit _ _ _ _ within]
      by_cases current : i = count
      · rw [if_pos current, current, if_pos (by omega)]
      · rw [if_neg current, bits i within]
        simp only [show i < count + 1 ↔ i < count by omega]

theorem receiveFrame_bit (bus : UartBus) (rx : Nat → Bool) (character : BitVec 8) (start : Nat)
    {i : Nat} (inside : i < 8) :
    (bus.receiveFrame rx character start).character.getLsbD i = rx (start + bus.sampleTime i) :=
  ((foldl_receiveBit bus rx start character 8 (Nat.le_refl 8)).2 i inside).trans (if_pos inside)

theorem receiveFrame_eq (rx : Nat → Bool) (character : BitVec 8) (start : Nat) :
    let received := (bus.receiveFrame rx character start).character
    bus.receiveFrame rx character start =
      ⟨received,
        bus.outcome start (bus.parityEn && parityOf received (rx (start + bus.sampleTime 8)))
          received,
        start + bus.finishTime⟩ := by
  have time := (foldl_receiveBit bus rx start character 8 (Nat.le_refl 8)).1
  have next : start + bus.uartBaudPeriod / 2 + 8 * bus.uartBaudPeriod + bus.uartBaudPeriod =
      start + bus.sampleTime 8 := by
    rw [sampleTime]
    omega
  have last : start + bus.sampleTime 8 + bus.uartBaudPeriod = start + bus.sampleTime 9 := by
    rw [sampleTime, sampleTime]
    omega
  cases parity : bus.parityEn with
  | false =>
      simp only [receiveFrame, checkParity, outcome, parity, time, next, finishTime,
        Bool.false_eq_true, if_false, Bool.false_and]
  | true =>
      simp only [receiveFrame, checkParity, outcome, parity, time, next, last, finishTime, if_true,
        Bool.true_and]

/-! Frames of another rate -/

def ones (c : BitVec 8) : Nat := (List.range 8).countP fun i => c.getLsbD i

/-- What is to be printed of a frame: its character, after a parity error where parity is checked
and the number of ones is even, since the stop bit is in the place of the parity bit. -/
def report (bus : UartBus) (frame : Nat × BitVec 8) : List UartEvent :=
  bus.outcome frame.1 (bus.parityEn && decide (ones frame.2 % 2 = 0)) frame.2

theorem foldl_parity (c : BitVec 8) (bits : List Nat) (parity : Bool) :
    bits.foldl (fun parity i => c.getLsbD i ^^ parity) parity =
      (parity ^^ decide ((bits.countP fun i => c.getLsbD i) % 2 = 1)) := by
  induction bits generalizing parity with
  | nil => simp
  | cons i rest ih =>
      rw [List.foldl_cons, ih]
      cases bit : c.getLsbD i with
      | false => rw [List.countP_cons_of_neg (by simp [bit]), Bool.false_xor]
      | true =>
          rw [List.countP_cons_of_pos bit, Bool.true_xor, Bool.not_xor]
          have flips (count : Nat) :
              decide ((count + 1) % 2 = 1) = !decide (count % 2 = 1) := by
            rw [← decide_not]
            exact decide_eq_decide.mpr (by omega)
          rw [flips, Bool.xor_not]

theorem parityOf_eq (c : BitVec 8) (parity : Bool) :
    parityOf c parity = (parity ^^ decide (ones c % 2 = 1)) := by
  rw [parityOf, foldl_parity, List.countP_reverse]
  rfl

theorem parityOf_stop (c : BitVec 8) : parityOf c true = decide (ones c % 2 = 0) := by
  rw [parityOf_eq, Bool.true_xor, ← decide_not]
  exact decide_eq_decide.mpr (by omega)

/-- Every bit of a frame sent with the given period is sampled inside of the bit, and so is the stop
bit where parity is checked. -/
structure InStep (bus : UartBus) (period : Nat) : Prop where
  bits : ∀ i < 8, (i + 1) * period < bus.sampleTime i ∧ bus.sampleTime i < (i + 2) * period
  stop : bus.parityEn = true → 9 * period < bus.sampleTime 8

theorem symbol_stop (c : BitVec 8) {index : Nat} (stop : 9 ≤ index) : symbol c index = true := by
  obtain ⟨more, rfl⟩ := Nat.exists_eq_add_of_le stop
  rw [show 9 + more = (8 + more) + 1 by omega, symbol, if_neg (by omega)]

theorem sampleTime_lt {bus : UartBus} (some : 0 < bus.uartBaudPeriod) {i last : Nat}
    (before : i < last) : bus.sampleTime i < bus.sampleTime last := by
  have steps := Nat.mul_lt_mul_of_pos_right (show i + 1 < last + 1 by omega) some
  unfold sampleTime
  omega

theorem sampleTime_lt_finishTime {bus : UartBus} (some : 0 < bus.uartBaudPeriod) {i : Nat}
    (inside : i < 8) : bus.sampleTime i < bus.finishTime := by
  unfold finishTime
  exact sampleTime_lt some (by split <;> omega)

theorem period_pos {period : Nat} (inStep : bus.InStep period) : 0 < period := by
  obtain ⟨after, before⟩ := inStep.bits 0 (by decide)
  omega

theorem receiveFrame_inStep {period : Nat} (inStep : bus.InStep period) {c : BitVec 8}
    (carried : ∀ later, start ≤ later → later < start + bus.finishTime →
      rx later = symbol c ((later - start) / period)) (sees : Sees rx seen)
    (some : 0 < bus.uartBaudPeriod) :
    bus.receiveFrame seen character start =
      ⟨c, bus.report (start, c), start + bus.finishTime⟩ := by
  have sampled {time : Nat} {level : Bool} (positive : 0 < time) (early : time < bus.finishTime)
      (now : symbol c (time / period) = level) (before : symbol c ((time - 1) / period) = level) :
      seen (start + time) = level := by
    refine sees.steady ?_ ?_
    · rw [carried _ (by omega) (by omega), Nat.add_sub_cancel_left, now]
    · rw [show start + time - 1 = start + (time - 1) by omega, carried _ (by omega) (by omega),
        Nat.add_sub_cancel_left, before]
  have received : (bus.receiveFrame seen character start).character = c := by
    apply BitVec.eq_of_getLsbD_eq
    intro i inside
    obtain ⟨after, before⟩ := inStep.bits i inside
    have bit : symbol c (i + 1) = c.getLsbD i := if_pos inside
    rw [receiveFrame_bit bus seen character start inside]
    refine sampled (by omega) (sampleTime_lt_finishTime some inside) ?_ ?_
    · rwa [Nat.div_eq_of_lt_le (Nat.le_of_lt after) before]
    · rwa [Nat.div_eq_of_lt_le (Nat.le_sub_one_of_lt after)
        (Nat.lt_of_le_of_lt (Nat.sub_le _ _) before)]
  rw [receiveFrame_eq]
  simp only [received, report]
  cases parity : bus.parityEn with
  | false => simp
  | true =>
      have after := inStep.stop parity
      have early : bus.sampleTime 8 < bus.finishTime := by
        unfold finishTime
        exact sampleTime_lt some (by simp [parity])
      have positive := period_pos inStep
      have stop : seen (start + bus.sampleTime 8) = true := by
        refine sampled (by omega) early ?_ ?_
        · exact symbol_stop c ((Nat.le_div_iff_mul_le positive).mpr (Nat.le_of_lt after))
        · exact symbol_stop c ((Nat.le_div_iff_mul_le positive).mpr (Nat.le_sub_one_of_lt after))
      rw [stop, parityOf_stop]

/-! The process -/

/-- While it waits for a frame, the process does nothing but look at its enable once in a while. -/
theorem receive_next (bus : UartBus) (character : BitVec 8) (fuel time : Nat)
    (enough : horizon - time < fuel) (before : time < start)
    (quiet : ∀ later, time < later → later < start → ¬Falls rx later) (falls : Falls rx start)
    (enabled : ∀ later, time ≤ later → rxEn later = false → later + 10 < start) :
    ∃ left, horizon - start < left ∧ bus.receive rx seen rxEn horizon fuel time character =
      if horizon < start then []
      else
        let frame := bus.receiveFrame seen character start
        frame.events.filter (fun event => event.time ≤ horizon) ++
          bus.receive rx seen rxEn horizon left frame.finish frame.character := by
  induction fuel generalizing time with
  | zero => omega
  | succ fuel ih =>
      rw [receive]
      by_cases past : horizon < time
      · exact ⟨fuel + 1, by omega, by rw [if_pos past, if_pos (by omega)]⟩
      rw [if_neg past]
      cases looks : rxEn time with
      | true =>
          rw [if_pos rfl]
          by_cases late : horizon < start
          · have nothing : negedge rx horizon time = none :=
              negedge_eq_none fun other after soon => quiet other after (by omega)
            exact ⟨fuel + 1, by omega, by rw [nothing, if_pos late]⟩
          · have found := negedge_eq_some before (by omega : start ≤ horizon) falls quiet
            exact ⟨fuel, by omega, by rw [found, if_neg late]⟩
      | false =>
          have soon := enabled time (Nat.le_refl time) looks
          rw [if_neg (by decide)]
          cases fuel with
          | zero => exact ⟨1, by omega, by rw [receive, if_pos (by omega)]⟩
          | succ fuel =>
              exact ih (time + 10) (by omega) (by omega)
                (fun later after => quiet later (by omega))
                (fun later after => enabled later (by omega))

theorem receive_idle (fuel time : Nat)
    (quiet : ∀ later, time < later → later ≤ horizon → ¬Falls rx later) :
    bus.receive rx seen rxEn horizon fuel time character = [] := by
  induction fuel generalizing time with
  | zero => rfl
  | succ fuel ih =>
      rw [receive]
      split
      · rfl
      split
      · rw [negedge_eq_none quiet]
      · exact ih (time + 10) fun later after => quiet later (by omega)

/-! The whole line -/

section Line

variable {period : Nat}

theorem symbol_of_time {wave : Nat → Bool} {c : BitVec 8} {index time : Nat}
    (symbols : ∀ later, start ≤ later → later < start + 10 * period →
      wave later = symbol c ((later - start) / period))
    (inside : start + index * period ≤ time) (below : time < start + (index + 1) * period)
    (within : index < 10) : wave time = symbol c index := by
  have frame := Nat.mul_le_mul_right period (show index + 1 ≤ 10 by omega)
  have position : (time - start) / period = index := by
    exact Nat.div_eq_of_lt_le (by omega) (by omega)
  rw [symbols time (by omega) (by omega), position]

/-- Inside of a frame the line falls at its symbols only, and not in the stop bit. -/
theorem quiet_after_bits {wave : Nat → Bool} {c : BitVec 8}
    (symbols : ∀ later, start ≤ later → later < start + 10 * period →
      wave later = symbol c ((later - start) / period)) {later : Nat}
    (after : start + 8 * period < later) (inside : later < start + 10 * period) :
    ¬Falls wave later := by
  by_cases stopped : start + 9 * period ≤ later
  · have stop := symbol_of_time symbols stopped (by omega) (by decide)
    exact not_falls_of_high (stop.trans (symbol_stop c (Nat.le_refl 9)))
  · have bit := symbol_of_time symbols (show start + 8 * period ≤ later by omega) (by omega)
      (by decide)
    have same := symbol_of_time symbols (show start + 8 * period ≤ later - 1 by omega) (by omega)
      (by decide)
    rintro ⟨before, fell⟩
    exact Bool.noConfusion (before.symm.trans (same.trans (bit.symm.trans fell)))

theorem Carries.high {wave : Nat → Bool} {frames : List (Nat × BitVec 8)} {begin last time : Nat}
    (idle : ∀ later, last ≤ later → wave later = true)
    (carries : Carries period wave begin frames last) (after : begin ≤ time)
    (before : ∀ frame ∈ frames, time < frame.1) : wave time = true := by
  cases frames with
  | nil =>
      by_cases early : time < last
      · exact carries.2 time after early
      · exact idle time (by omega)
  | cons frame frames => exact carries.2.1 time after (before frame List.mem_cons_self)

theorem receive_carried (inStep : bus.InStep period) (sees : Sees rx seen)
    (some : 0 < bus.uartBaudPeriod) (positive : 0 < period) {last : Nat}
    (idle : ∀ later, last ≤ later → rx later = true)
    (frames : List (Nat × BitVec 8)) (fuel time begin : Nat) (enough : horizon - time < fuel)
    (carries : Carries period rx begin frames last) (high : rx (begin - 1) = true)
    (quiet : ∀ later, time < later → later < begin → ¬Falls rx later)
    (waiting : ∀ frame ∈ frames, time < frame.1)
    (spaced : frames.Pairwise fun before after => before.1 + bus.finishTime < after.1)
    (enabled : ∀ frame ∈ frames, ∀ later, time ≤ later → rxEn later = false →
      later + 10 < frame.1) :
    bus.receive rx seen rxEn horizon fuel time character =
      (frames.flatMap bus.report).filter (fun event => event.time ≤ horizon) := by
  induction frames generalizing fuel time begin character with
  | nil =>
      refine receive_idle fuel time fun later after _ => ?_
      by_cases early : later < begin
      · exact quiet later after early
      · exact not_falls_of_high (carries.high idle (by omega) (by simp))
  | cons frame frames ih =>
      obtain ⟨start, c⟩ := frame
      have quietBefore : ∀ later, time < later → later < start → ¬Falls rx later := by
        intro later after before
        by_cases early : later < begin
        · exact quiet later after early
        · exact not_falls_of_high (carries.2.1 later (by omega) before)
      obtain ⟨order, idleBefore, symbols, rest⟩ := carries
      obtain ⟨apart, spaced⟩ := List.pairwise_cons.mp spaced
      have falls : Falls rx start := by
        refine ⟨?_, symbol_of_time symbols (show start + 0 * period ≤ start by omega) (by omega)
          (by decide)⟩
        by_cases same : begin = start
        · exact same ▸ high
        · exact idleBefore (start - 1) (by omega) (by omega)
      obtain ⟨left, stillEnough, next⟩ := receive_next bus character fuel time enough
        (waiting _ List.mem_cons_self) quietBefore falls (enabled _ List.mem_cons_self)
      rw [next]
      by_cases late : horizon < start
      · rw [if_pos late]
        refine (List.filter_eq_nil_iff.mpr fun event member => ?_).symm
        obtain ⟨other, sent, reported⟩ := List.mem_flatMap.mp member
        have after := (time_of_mem_outcome reported).1
        have beyond : start ≤ other.1 := by
          rcases List.mem_cons.mp sent with rfl | sent
          · exact Nat.le_refl _
          · exact Nat.le_trans (Nat.le_add_right _ _) (Nat.le_of_lt (apart other sent))
        simp only [decide_eq_true_eq]
        omega
      · have carried : ∀ later, start ≤ later → later < start + bus.finishTime →
            rx later = symbol c ((later - start) / period) := by
          intro later after before
          by_cases inside : later < start + 10 * period
          · exact symbols later after inside
          · have stop : 9 ≤ (later - start) / period := by
              rw [Nat.le_div_iff_mul_le positive]
              omega
            rw [symbol_stop c stop]
            exact rest.high idle (by omega) fun frame member => by
              have := apart frame member
              omega
        have bits : start + 8 * period ≤ start + bus.finishTime := by
          have lastBit := (inStep.bits 7 (by decide)).1
          have before := sampleTime_lt_finishTime some (show 7 < 8 by decide)
          omega
        rw [if_neg late, receiveFrame_inStep inStep carried sees some, List.flatMap_cons,
          List.filter_append]
        refine congrArg _ (ih left (start + bus.finishTime) (start + 10 * period) ?_ rest ?_ ?_
          apart spaced ?_)
        · omega
        · have stop := symbol_of_time symbols (show start + 9 * period ≤ start + 10 * period - 1
            by omega) (by omega) (by decide)
          exact stop.trans (symbol_stop c (Nat.le_refl 9))
        · exact fun later after inside => quiet_after_bits symbols (by omega) inside
        · intro frame member later after disabled
          have started := waiting _ List.mem_cons_self
          exact enabled frame (List.mem_cons_of_mem _ member) later (by omega) disabled

end Line

/-! One sender and one receiver -/

theorem sampleTime_pos (some : 0 < bus.uartBaudPeriod) (i : Nat) : 0 < bus.sampleTime i :=
  Nat.add_pos_right _ (Nat.mul_pos (Nat.succ_pos i) some)

theorem InStep.some {period : Nat} (inStep : bus.InStep period) : 0 < bus.uartBaudPeriod := by
  have first := (inStep.bits 0 (by decide)).1
  by_cases none : bus.uartBaudPeriod = 0
  · simp [sampleTime, none] at first
  · omega

section Pair

variable {sender : UartBus}

/-- A script whose first character is sent after the line has come up, and whose characters leave
the receiver the time to finish. -/
structure Paced (sender bus : UartBus) (script : List Stimulus) : Prop where
  started : ∀ frame ∈ sender.frames idle script, 0 < frame.1
  spaced : (sender.frames idle script).Pairwise fun before after =>
    before.1 + bus.finishTime < after.1

theorem printed_inStep (inStep : bus.InStep sender.uartBaudPeriod) {script : List Stimulus}
    (paced : Paced sender bus script) (sees : Sees (sender.sentLine script).wave seen)
    (enabled : ∀ frame ∈ sender.frames idle script, ∀ later, rxEn later = false →
      later + 10 < frame.1) (horizon : Nat) (character : BitVec 8) :
    bus.printed (sender.sentLine script).wave seen rxEn horizon character =
      ((sender.frames idle script).flatMap bus.report).filter
        (fun event => event.time ≤ horizon) := by
  have positive := period_pos inStep
  have sends := Sends.script positive script idle
  have idleBefore : ∀ time, idle.now ≤ time → idle.wave time = true := fun _ _ => rfl
  have carries := sends.carries idleBefore
  refine receive_carried inStep sees inStep.some positive (sends.idle idleBefore) _ _ 0 0
    (by omega) carries ?_ (fun later _ below => absurd below (by omega)) paced.started paced.spaced
    fun frame member later _ => enabled frame member later
  exact carries.high (sends.idle idleBefore) (Nat.le_refl 0) paced.started

theorem inStep_self (two : 2 ≤ bus.uartBaudPeriod) : bus.InStep bus.uartBaudPeriod := by
  have half : 0 < bus.uartBaudPeriod / 2 := Nat.div_pos two (by decide)
  refine ⟨fun i _ => ⟨Nat.lt_add_of_pos_left half, ?_⟩, fun _ => Nat.lt_add_of_pos_left half⟩
  rw [sampleTime, Nat.add_mul (i + 1) 1]
  omega

theorem started_of_wait (positive : 0 < bus.uartBaudPeriod) {pause : Nat} (awake : 0 < pause)
    (script : List Stimulus) :
    ∀ frame ∈ bus.frames idle (.wait pause :: script), 0 < frame.1 := by
  intro frame member
  have carries := (Sends.script positive script (idle.delay pause)).carries fun _ _ => rfl
  have after := carries.after frame member
  exact Nat.lt_of_lt_of_le awake (Nat.le_trans (Nat.le_add_left _ _) after)

theorem paced_self (positive : 0 < bus.uartBaudPeriod) (noParity : bus.parityEn = false)
    {script : List Stimulus} (started : ∀ frame ∈ bus.frames idle script, 0 < frame.1) :
    Paced bus bus script := by
  have carries := (Sends.script positive script idle).carries fun _ _ => rfl
  refine ⟨started, carries.pairwise.imp fun apart => Nat.lt_of_lt_of_le ?_ apart⟩
  rw [finishTime, noParity, if_neg (by decide), sampleTime]
  omega

theorem report_noParity (noParity : bus.parityEn = false) (frame : Nat × BitVec 8) :
    bus.report frame = [.written (frame.1 + bus.finishTime) frame.2] := by
  simp [report, outcome, noParity]

/-- Between two of the same baud rate no character is lost, changed, doubled or made up, whatever
the pauses: each is printed nine and a half bits after its start bit. A bit is two units of time or
more, so that no sample falls on a drive, and time has passed before the first character. -/
theorem printed_eq_sent (two : 2 ≤ bus.uartBaudPeriod) (noParity : bus.parityEn = false)
    {pause : Nat} (awake : 0 < pause) (script : List Stimulus)
    (sees : Sees (bus.sentLine (.wait pause :: script)).wave seen)
    (enabled : ∀ frame ∈ bus.frames idle (.wait pause :: script), ∀ later, rxEn later = false →
      later + 10 < frame.1) (horizon : Nat) (character : BitVec 8) :
    bus.printed (bus.sentLine (.wait pause :: script)).wave seen rxEn horizon character =
        ((bus.frames idle (.wait pause :: script)).map fun frame =>
          .written (frame.1 + (bus.uartBaudPeriod / 2 + 9 * bus.uartBaudPeriod)) frame.2).filter
          (fun event => event.time ≤ horizon) ∧
      (bus.frames idle (.wait pause :: script)).map Prod.snd =
        script.flatMap Stimulus.chars := by
  refine ⟨?_, frames_chars (.wait pause :: script) idle⟩
  have positive : 0 < bus.uartBaudPeriod := by omega
  have paced := paced_self positive noParity (started_of_wait positive awake script)
  rw [printed_inStep (inStep_self two) paced sees enabled]
  refine congrArg _ ?_
  rw [List.map_eq_flatMap]
  refine congrArg (List.flatMap · _) (funext fun frame => ?_)
  rw [report_noParity noParity, finishTime, noParity]
  rfl

/-- The test of `vip_rt_top.sv`, in nanoseconds. -/
def uartRxTest : List Stimulus :=
  let sochub : SvString := ⟨[0x53, 0x4F, 0x43, 0x48, 0x55, 0x42], by decide⟩
  [.wait 100000, .char 0x41, .checkpattern sochub, .char 0x42, .checkpattern sochub, .char 0x43,
    .checkpattern sochub]

theorem printed_eq_sent_uartRxTest :
    (⟨667, false⟩ : UartBus).printed ((⟨667, false⟩ : UartBus).sentLine uartRxTest).wave
        (fun time => ((⟨667, false⟩ : UartBus).sentLine uartRxTest).wave (time - 1))
        (fun _ => true) 300000 0 =
        (((⟨667, false⟩ : UartBus).frames idle uartRxTest).map fun frame =>
          .written (frame.1 + (667 / 2 + 9 * 667)) frame.2).filter
          (fun event => event.time ≤ 300000) ∧
      ((⟨667, false⟩ : UartBus).frames idle uartRxTest).map Prod.snd =
        uartRxTest.tail.flatMap Stimulus.chars :=
  printed_eq_sent (by decide) rfl (by decide) _ (.before _)
    (fun _ _ _ disabled => Bool.noConfusion disabled) 300000 0

theorem symbol_injective {i index : Nat} (inside : i < 8)
    (same : ∀ c, symbol c index = c.getLsbD i) : index = i + 1 := by
  cases index with
  | zero =>
      have ones := same (BitVec.allOnes 8)
      rw [BitVec.getLsbD_allOnes, decide_eq_true inside] at ones
      cases ones
  | succ j =>
      have only := same (BitVec.twoPow 8 i)
      rw [BitVec.getLsbD_twoPow, symbol] at only
      by_cases bit : j < 8
      · rw [if_pos bit, BitVec.getLsbD_twoPow] at only
        simp [inside] at only
        omega
      · have none := same 0#8
        rw [symbol, if_neg bit] at none
        simp at none

theorem stop_of_symbol {index : Nat} (high : ∀ c, symbol c index = true) : 9 ≤ index := by
  by_cases below : 9 ≤ index
  · exact below
  · have low := high 0#8
    unfold symbol at low
    split at low
    · cases low
    · rw [if_pos (by omega)] at low
      simp at low

/-- The line of one character after one unit of time. -/
def single (sender : UartBus) (c : BitVec 8) : Line := sender.sentLine [.wait 1, .char c]

theorem single_wave (positive : 0 < sender.uartBaudPeriod) (c : BitVec 8) {time : Nat}
    (after : 1 ≤ time) :
    (sender.single c).wave time = symbol c ((time - 1) / sender.uartBaudPeriod) :=
  sendChar_wave positive (idle.delay 1) c after

theorem printed_single (positive : 0 < sender.uartBaudPeriod) (c : BitVec 8) :
    bus.printed (sender.single c).wave seen (fun _ => true) (1 + bus.finishTime) 0 =
      (bus.receiveFrame seen 0 1).events := by
  have falls : Falls (sender.single c).wave 1 := by
    refine ⟨sendChar_before positive (idle.delay 1) c (by decide), ?_⟩
    rw [single_wave positive c (Nat.le_refl 1), Nat.sub_self, Nat.zero_div]
    rfl
  have enough : 1 + bus.finishTime - 0 < 1 + bus.finishTime + 1 := by omega
  have enabled : ∀ later, 0 ≤ later → (fun _ : Nat => true) later = false → later + 10 < 1 :=
    fun _ _ disabled => Bool.noConfusion disabled
  obtain ⟨left, _, next⟩ := receive_next bus 0 (1 + bus.finishTime + 1) 0 enough (by decide)
    (fun later after before => absurd before (by omega)) falls enabled
  rw [printed, next, if_neg (by omega), receiveFrame_eq]
  simp only
  rw [outcome_filter, receive_idle left _ fun later after before => absurd before (by omega),
    List.append_nil]

/-- Every script of the sender is printed, whichever of two processes runs first in an instant. -/
def Prints (sender bus : UartBus) : Prop :=
  ∀ script horizon character seen, Paced sender bus script →
    Sees (sender.sentLine script).wave seen →
    bus.printed (sender.sentLine script).wave seen (fun _ => true) horizon character =
      ((sender.frames idle script).flatMap bus.report).filter (fun event => event.time ≤ horizon)

theorem Prints.single (prints : Prints sender bus) (positive : 0 < sender.uartBaudPeriod)
    (c : BitVec 8) (sees : Sees (sender.single c).wave seen) :
    (∀ i < 8, seen (1 + bus.sampleTime i) = c.getLsbD i) ∧
      (bus.parityEn = true → seen (1 + bus.sampleTime 8) = true) := by
  have frames : sender.frames idle [.wait 1, .char c] = [(1, c)] := rfl
  have paced : Paced sender bus [.wait 1, .char c] := by
    constructor
    · intro frame member
      rw [frames, List.mem_singleton] at member
      rw [member]
      exact Nat.one_pos
    · rw [frames]
      exact List.pairwise_singleton _ _
  have reported := prints [.wait 1, .char c] (1 + bus.finishTime) 0 seen paced sees
  rw [frames, List.flatMap_singleton, report, outcome_filter] at reported
  have events := (printed_single positive c).symm.trans reported
  rw [receiveFrame_eq, ← parityOf_stop] at events
  obtain ⟨checked, received⟩ := outcome_injective events
  refine ⟨fun i inside => ?_, fun parity => ?_⟩
  · rw [← receiveFrame_bit bus seen 0 1 inside, received]
  · rw [received, parity, Bool.true_and, Bool.true_and, parityOf_eq, parityOf_eq,
      Bool.xor_left_inj] at checked
    exact checked

/-- A receiver prints every script that a sender of another rate may send, whichever of the two
processes runs first in an instant, exactly where the rates keep each of its samples inside of the
bit it is meant for. -/
theorem printed_iff_inStep (positive : 0 < sender.uartBaudPeriod) :
    Prints sender bus ↔ bus.InStep sender.uartBaudPeriod := by
  constructor
  · intro prints
    have now (c : BitVec 8) := prints.single positive c (.now _)
    have before (c : BitVec 8) := prints.single positive c (.before _)
    have position {i : Nat} (inside : i < 8) :
        bus.sampleTime i / sender.uartBaudPeriod = i + 1 := by
      refine symbol_injective inside fun c => ?_
      have bit := (now c).1 i inside
      rwa [single_wave positive c (Nat.le_add_right _ _), Nat.add_sub_cancel_left] at bit
    have some : 0 < bus.uartBaudPeriod := by
      by_contra none
      have first := position (show 0 < 8 by decide)
      simp [sampleTime, Nat.eq_zero_of_not_pos none] at first
    -- a sample that finds the level before it
    have sampled (c : BitVec 8) (i : Nat) :
        (sender.single c).wave (1 + bus.sampleTime i - 1) =
          symbol c ((bus.sampleTime i - 1) / sender.uartBaudPeriod) := by
      rw [Nat.add_sub_cancel_left, single_wave positive c (sampleTime_pos some i)]
    constructor
    · intro i inside
      have early : (bus.sampleTime i - 1) / sender.uartBaudPeriod = i + 1 :=
        symbol_injective inside fun c => (sampled c i).symm.trans ((before c).1 i inside)
      have lower := Nat.div_mul_le_self (bus.sampleTime i - 1) sender.uartBaudPeriod
      rw [early] at lower
      refine ⟨Nat.lt_of_le_pred (sampleTime_pos some i) lower, ?_⟩
      rw [← Nat.div_lt_iff_lt_mul positive, position inside]
      exact Nat.lt_succ_self (i + 1)
    · intro parity
      have stop : 9 ≤ (bus.sampleTime 8 - 1) / sender.uartBaudPeriod :=
        stop_of_symbol fun c => (sampled c 8).symm.trans ((before c).2 parity)
      rw [Nat.le_div_iff_mul_le positive] at stop
      exact Nat.lt_of_le_pred (sampleTime_pos some 8) stop
  · intro inStep script horizon character seen paced sees
    exact printed_inStep inStep paced sees (fun _ _ _ disabled => Bool.noConfusion disabled)
      horizon character

/-- One in twenty off is near enough, and one in seventeen the other way puts the last sample on a
drive. -/
theorem printed_iff_inStep_slow :
    Prints ⟨667, false⟩ ⟨700, false⟩ ∧ ¬Prints ⟨17, false⟩ ⟨16, false⟩ := by
  constructor
  · refine (printed_iff_inStep (by decide)).mpr ⟨?_, fun parity => Bool.noConfusion parity⟩
    intro i inside
    interval_cases i <;> decide
  · intro prints
    have last := ((printed_iff_inStep (by decide)).mp prints).bits 7 (by decide)
    exact absurd last.1 (by decide)

end Pair

end Atalanta.Testbench.UartBus
