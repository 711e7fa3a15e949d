import Atalanta.Bsp.MTimerCounter
import Atalanta.Library.LaneMemory

/-! The machine timer while it is stopped: `apb_mtimer` as a plain file of 32-bit registers, and
`MTimer::reset`, which stops it. -/

namespace Atalanta.ApbMtimer

open BusProgram Bsp Clocked LaneMemory

def Register.implemented : Register → BitVec 32
  | .ctrl => 0x701
  | .unimplemented => 0
  | _ => BitVec.allOnes 32

def startsTimer (bus : ApbIn) : Prop :=
  writes bus = true ∧ register (intAddr bus) = .ctrl ∧ bus.pwdata.getLsbD 0 = true

theorem ctrl_implemented : ∀ bit < 32,
    (0x701 : BitVec 32).getLsbD bit = decide (bit = 0 ∨ 8 ≤ bit ∧ bit < 11) := by decide

theorem and_implemented (data : BitVec 32) (reg : Register) :
    data &&& reg.implemented =
      match reg with
      | .ctrl => data &&& 0x701
      | .unimplemented => 0
      | _ => data := by
  cases reg with
  | ctrl => rfl
  | unimplemented => exact BitVec.and_zero
  | _ => exact BitVec.and_allOnes

theorem ctrlWord_of_written (state : State) (data : BitVec 32) :
    ctrlWord { state with
      enableQ := data.getLsbD 0
      prescalerQ := data.extractLsb' 8 3
      counterQ := 0 } = data &&& 0x701 := by
  apply BitVec.eq_of_getLsbD_eq
  intro bit within
  rw [BitVec.getLsbD_and, ctrl_implemented bit within, ctrlWord, BitVec.getLsbD_or,
    BitVec.getLsbD_shiftLeft, BitVec.getLsbD_setWidth, BitVec.getLsbD_setWidth,
    BitVec.getLsbD_extractLsb', BitVec.getLsbD_ofBool]
  by_cases enable : bit = 0
  · simp [enable]
  · by_cases above : 8 ≤ bit
    · have place : 8 + (bit - 8) = bit := by omega
      by_cases inside : bit < 11
      · simp [enable, above, inside, within, place, show bit - 8 < 32 by omega,
          show bit - 8 < 3 by omega, show ¬bit < 8 by omega]
      · simp [enable, inside, show ¬bit - 8 < 3 by omega]
    · simp [enable, above, show bit < 8 by omega]

/-- A cycle stores the written bits in the addressed register, and leaves every other one alone. -/
theorem word_next (state : State) (bus : ApbIn) (stopped : state.enableQ = false)
    (reg : Register) :
    word (next state bus) reg =
      if writes bus = true ∧ reg = register (intAddr bus) then bus.pwdata &&& reg.implemented
      else word state reg := by
  cases strobe : writes bus with
  | false =>
      rw [next_of_quiet state bus strobe, stopped]
      cases reg <;> simp [word, ctrlWord, stopped]
  | true =>
      rw [next_of_write state bus strobe, and_implemented]
      cases addressed : register (intAddr bus) with
      | ctrl =>
          cases reg with
          | ctrl => exact ctrlWord_of_written state bus.pwdata
          | _ => rfl
      | unimplemented => cases reg <;> rfl
      | _ => cases reg <;> simp [word, ctrlWord]

theorem enable_next (state : State) (bus : ApbIn) (stopped : state.enableQ = false)
    (stays : ¬startsTimer bus) : (next state bus).enableQ = false := by
  cases strobe : writes bus with
  | false => exact (kept_of_quiet state bus strobe).2.2.trans stopped
  | true =>
      rw [next_of_write state bus strobe]
      cases addressed : register (intAddr bus) with
      | ctrl => exact Bool.eq_false_iff.mpr fun starts => stays ⟨strobe, addressed, starts⟩
      | _ => exact stopped

theorem timerIrq_stopped {state : State} (stopped : state.enableQ = false) :
    timerIrq state = false := by
  simp [timerIrq, stopped]

section Run

variable (start : State) (bus : Nat → ApbIn)

-- what the bus writes, as a history of the register file
def stream (cycle : Nat) : Option (Request Register Unit (BitVec 32)) :=
  if writes (bus cycle) then
    some
      { index := register (intAddr (bus cycle))
        enable := fun _ => true
        data := fun _ => (bus cycle).pwdata &&& (register (intAddr (bus cycle))).implemented }
  else none

def initial (reg : Register) (_ : Unit) : BitVec 32 := word start reg

variable {start bus} (stopped : start.enableQ = false) (stays : ∀ cycle, ¬startsTimer (bus cycle))

include stopped stays

theorem run_stopped (cycle : Nat) : (circuit.runFrom start bus cycle).enableQ = false := by
  induction cycle with
  | zero => exact stopped
  | succ cycle ih => exact enable_next _ (bus cycle) ih (stays cycle)

theorem contentsAt_word (cycle : Nat) (reg : Register) :
    contentsAt (initial start) (stream bus) cycle reg () =
      word (circuit.runFrom start bus cycle) reg := by
  induction cycle with
  | zero => rfl
  | succ cycle ih =>
      have step := word_next _ (bus cycle) (run_stopped stopped stays cycle) reg
      rw [circuit.runFrom_succ]
      refine Eq.trans ?_ step.symm
      rw [← ih]
      cases strobe : writes (bus cycle) with
      | false =>
          rw [contentsAt_of_none _ _ (by simp [stream, strobe])]
          simp
      | true =>
          rw [contentsAt_of_some _ _ (by simp [stream, strobe]; rfl), LaneMemory.apply]
          by_cases addressed : reg = register (intAddr (bus cycle)) <;> simp [addressed]

end Run

/-! `MTimer::reset` -/

/-- A stopped timer whose listed registers hold the listed words. -/
structure Holds (words : List (Register × BitVec 32)) (state : State) : Prop where
  stopped : state.enableQ = false
  held : ∀ listed ∈ words, word state listed.1 = listed.2

theorem holds_stable (words : List (Register × BitVec 32)) :
    Stable circuit Untouched (fun state => state.enableQ = false)
      (Holds words) where
  kept state bus untouched holds := by
    refine ⟨(untouched.enable_kept state).trans holds.stopped, fun listed member => ?_⟩
    refine Eq.trans ?_ (holds.held listed member)
    refine (word_next state bus holds.stopped listed.1).trans ?_
    split
    · rename_i addressed
      rw [addressed.2, untouched addressed.1]
      exact BitVec.and_zero
    · rfl
  safe _ holds := holds.stopped

theorem Holds.write {words : List (Register × BitVec 32)} {state : State}
    (holds : Holds words state) (addr data : BitVec 32)
    (timer : register (addr.extractLsb' 2 3) ≠ .ctrl)
    (fresh : ∀ listed ∈ words, listed.1 ≠ register (addr.extractLsb' 2 3)) :
    Holds ((register (addr.extractLsb' 2 3),
      data &&& (register (addr.extractLsb' 2 3)).implemented) :: words)
      (next state (.write addr data)) := by
  refine ⟨enable_next state _ holds.stopped fun starts => timer starts.2.1, ?_⟩
  intro listed member
  rw [word_next state _ holds.stopped]
  rcases List.mem_cons.mp member with rfl | earlier
  · exact if_pos ⟨rfl, rfl⟩
  · exact (if_neg fun both => fresh listed earlier both.2).trans (holds.held listed earlier)

theorem holds_of_disabled (state : State) :
    Holds [] (next state (.write (mtimerBase + mtimeCtrlAddrOfs) 0)) := by
  have selected : register ((mtimerBase + mtimeCtrlAddrOfs).extractLsb' 2 3) = .ctrl := by decide
  refine ⟨?_, by simp⟩
  rw [next_of_write state _ rfl, intAddr, ApbIn.write, selected]
  rfl

def resetWords : List (Register × BitVec 32) :=
  [(.mTimeCmpHigh, BitVec.allOnes 32), (.mTimeCmpLow, BitVec.allOnes 32), (.mTimeHigh, 0),
    (.mTimeLow, 0)]

theorem Holds.reset {state : State} (holds : Holds resetWords state) :
    state.mtimeQ = 0 ∧ state.mtimecmpQ = BitVec.allOnes 64 ∧ state.enableQ = false := by
  have compareHigh : state.mtimecmpQ.extractLsb' 32 32 = _ := holds.held _ (.head _)
  have compareLow : state.mtimecmpQ.extractLsb' 0 32 = _ := holds.held _ (.tail _ (.head _))
  have timeHigh : state.mtimeQ.extractLsb' 32 32 = _ := holds.held _ (.tail _ (.tail _ (.head _)))
  have timeLow : state.mtimeQ.extractLsb' 0 32 = _ :=
    holds.held _ (.tail _ (.tail _ (.tail _ (.head _))))
  refine ⟨?_, ?_, holds.stopped⟩
  · rw [← halves_append state.mtimeQ, timeHigh, timeLow]
    rfl
  · rw [← halves_append state.mtimecmpQ, compareHigh, compareLow]
    rfl

theorem holds_write {words : List (Register × BitVec 32)} {addr data : BitVec 32}
    {rest : Driver Unit} {after : Unit → State → Prop}
    (timer : register (addr.extractLsb' 2 3) ≠ .ctrl)
    (fresh : ∀ listed ∈ words, listed.1 ≠ register (addr.extractLsb' 2 3))
    (continues : Triple circuit mtimerBus Untouched
      (fun state => state.enableQ = false)
      (Holds ((register (addr.extractLsb' 2 3),
        data &&& (register (addr.extractLsb' 2 3)).implemented) :: words)) rest after) :
    Triple circuit mtimerBus Untouched (fun state => state.enableQ = false)
      (Holds words) (.write addr data rest) after := by
  refine Triple.write (holds_stable words) ?_ continues
  rintro state _ rfl holds
  exact holds.write addr data timer fresh

def resetRegisters : Driver Unit := do
  writeU32 (mtimerBase + mtimeLowAddrOfs) 0
  writeU32 (mtimerBase + mtimeHighAddrOfs) 0
  writeU32 (mtimerBase + mtimecmpLowAddrOfs) (BitVec.allOnes 32)
  writeU32 (mtimerBase + mtimecmpHighAddrOfs) (BitVec.allOnes 32)

theorem resetRegisters_triple :
    Triple circuit mtimerBus Untouched (fun state => state.enableQ = false)
      (Holds []) resetRegisters (fun _ => Holds resetWords) := by
  refine holds_write (by decide) (by decide) (holds_write (by decide) (by decide)
    (holds_write (by decide) (by decide) (holds_write (by decide) (by decide) ?_)))
  exact Triple.done (holds_stable _) fun _ ends => ends

structure RegisterFile (start : State) (bus : Nat → ApbIn) (cycle : Nat) : Prop where
  read : reads (bus cycle) = true →
    Latest (initial start) (stream bus) (register (intAddr (bus cycle))) () cycle
      (circuit.outFrom start bus cycle).prdata
  frame : ∀ reg, ¬(writes (bus cycle) = true ∧ reg = register (intAddr (bus cycle))) →
    word (circuit.runFrom start bus (cycle + 1)) reg = word (circuit.runFrom start bus cycle) reg
  irq : (circuit.outFrom start bus cycle).timerIrq = false

structure ResetBy (start : State) (bus : Nat → ApbIn) (accesses : List Nat) (last : Nat) :
    Prop where
  mtime : (circuit.runFrom start bus last).mtimeQ = 0
  mtimecmp : (circuit.runFrom start bus last).mtimecmpQ = BitVec.allOnes 64
  disabled : (circuit.runFrom start bus last).enableQ = false
  irq : ∀ write ∈ accesses.head?, ∀ cycle, write < cycle → cycle ≤ last →
    (circuit.outFrom start bus cycle).timerIrq = false

theorem registerFile {start : State} {bus : Nat → ApbIn} (stopped : start.enableQ = false)
    (stays : ∀ cycle, ¬startsTimer (bus cycle)) (cycle : Nat) : RegisterFile start bus cycle := by
  have disabled := run_stopped stopped stays cycle
  refine ⟨fun reading => ?_, fun reg other => ?_, timerIrq_stopped disabled⟩
  · have shown : (circuit.outFrom start bus cycle).prdata = _ := prdata_of_reads _ _ reading
    rw [shown, ← contentsAt_word stopped stays]
    exact contentsAt_latest _ _ _ _ _
  · exact (word_next _ (bus cycle) disabled reg).trans (if_neg other)

theorem reset_performed {start : State} {bus : Nat → ApbIn} {first last : Nat}
    {accesses : List Nat}
    (performs : Performs circuit mtimerBus Untouched start bus MTimer.reset
      first accesses last ()) : ResetBy start bus accesses last := by
  obtain ⟨write, later, rfl, _, disables, performs⟩ := performs.of_write
  have begins : Holds [] (circuit.runFrom start bus (write + 1)) := by
    rw [circuit.runFrom_succ, show bus write = _ from disables]
    exact holds_of_disabled _
  obtain ⟨stopped, ends⟩ := resetRegisters_triple start bus _ _ _ _ performs begins
  obtain ⟨mtime, mtimecmp, disabled⟩ := ends.reset
  refine ⟨mtime, mtimecmp, disabled, ?_⟩
  rintro _ ⟨⟩ cycle after before
  exact timerIrq_stopped (stopped cycle after before)

/-- A stopped timer is a file of 32-bit registers for any accesses that do not start it, and
`reset` stops any timer. -/
theorem stopped_register_file (start : State) (bus : Nat → ApbIn) :
    (start.enableQ = false → (∀ cycle, ¬startsTimer (bus cycle)) →
      ∀ cycle, RegisterFile start bus cycle) ∧
    (∀ first accesses last,
      Performs circuit mtimerBus Untouched start bus MTimer.reset first
        accesses last () → ResetBy start bus accesses last) :=
  ⟨registerFile, fun _ _ _ => reset_performed⟩

def resetting (cycle : Nat) : ApbIn :=
  if cycle = 1 then .write (mtimerBase + mtimeCtrlAddrOfs) 0
  else if cycle = 2 then .write (mtimerBase + mtimeLowAddrOfs) 0
  else if cycle = 3 then .write (mtimerBase + mtimeHighAddrOfs) 0
  else if cycle = 4 then .write (mtimerBase + mtimecmpLowAddrOfs) (BitVec.allOnes 32)
  else if cycle = 5 then .write (mtimerBase + mtimecmpHighAddrOfs) (BitVec.allOnes 32)
  else if cycle = 6 then .read (mtimerBase + mtimecmpLowAddrOfs)
  else .idle

theorem stopped_register_file_resetting :
    RegisterFile circuit.reset resetting 2 ∧
      Latest (initial circuit.reset) (stream resetting) .mTimeCmpLow () 6
        (circuit.outFrom circuit.reset resetting 6).prdata ∧
      (circuit.outFrom circuit.reset resetting 6).prdata = BitVec.allOnes 32 ∧
      ResetBy (started 1) resetting [1, 2, 3, 4, 5] 6 := by
  have files := (stopped_register_file circuit.reset resetting).1 rfl ?_
  · refine ⟨files 2, (files 6).read rfl, rfl,
      (stopped_register_file (started 1) resetting).2 0 _ _ ?_⟩
    exact .wait (untouched_of_quiet rfl) (.write rfl (.write rfl (.write rfl (.write rfl (.write rfl
      (.done () 6))))))
  · intro cycle
    unfold resetting startsTimer
    repeat' split
    all_goals decide

end Atalanta.ApbMtimer
