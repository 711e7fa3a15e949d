import Atalanta.Testbench.UartBus

/-! What one `uart_bus` prints of the characters that another one sends. -/

namespace Atalanta.Testbench.UartBus

open BitField Waveform

/-- The symbols of a frame: the start bit, the bits of the character, and the stop bit, which lasts
until the next frame. -/
def symbol (c : BitVec 8) : Nat → Bool
  | 0 => false
  | i + 1 => if i < 8 then c.getLsbD i else true

/-- From `time` to `last`, the line carries the frames that start at the given times, and is idle
otherwise. -/
def Carries (period : Nat) (wave : Nat → Bool) :
    (time : Nat) → List (Nat × BitVec 8) → (last : Nat) → Prop
  | time, [], last => time ≤ last ∧ ∀ later, time ≤ later → later < last → wave later = true
  | time, (start, c) :: frames, last =>
    time ≤ start ∧ (∀ later, time ≤ later → later < start → wave later = true) ∧
      (∀ later, start ≤ later → later < start + 10 * period →
        wave later = symbol c ((later - start) / period)) ∧
      Carries period wave (start + 10 * period) frames last

section Carries

variable {period : Nat} {wave other : Nat → Bool} {time middle last : Nat}
  {earlier later : List (Nat × BitVec 8)}

theorem Carries.order (carries : Carries period wave time earlier last) : time ≤ last := by
  induction earlier generalizing time with
  | nil => exact carries.1
  | cons frame frames ih =>
      have rest := ih carries.2.2.2
      have first := carries.1
      omega

theorem Carries.wait (order : time ≤ middle)
    (idle : ∀ other, time ≤ other → other < middle → wave other = true)
    (carries : Carries period wave middle later last) : Carries period wave time later last := by
  have joined {bound : Nat} (rest : ∀ other, middle ≤ other → other < bound → wave other = true) :
      ∀ other, time ≤ other → other < bound → wave other = true := by
    intro other after below
    by_cases early : other < middle
    · exact idle other after early
    · exact rest other (by omega) below
  cases later with
  | nil => exact ⟨Nat.le_trans order carries.1, joined carries.2⟩
  | cons frame frames =>
      exact ⟨Nat.le_trans order carries.1, joined carries.2.1, carries.2.2⟩

theorem Carries.append (first : Carries period wave time earlier middle)
    (second : Carries period wave middle later last) :
    Carries period wave time (earlier ++ later) last := by
  induction earlier generalizing time with
  | nil => exact second.wait first.1 first.2
  | cons frame frames ih => exact ⟨first.1, first.2.1, first.2.2.1, ih first.2.2.2⟩

theorem Carries.congr (same : ∀ later < last, wave later = other later)
    (carries : Carries period other time earlier last) :
    Carries period wave time earlier last := by
  induction earlier generalizing time with
  | nil =>
      refine ⟨carries.1, fun later after below => ?_⟩
      exact (same later below).trans (carries.2 later after below)
  | cons frame frames ih =>
      obtain ⟨order, idle, symbols, rest⟩ := carries
      have bound := rest.order
      refine ⟨order, fun later after below => ?_, fun later after below => ?_, ih rest⟩
      · exact (same later (by omega)).trans (idle later after below)
      · exact (same later (by omega)).trans (symbols later after below)

theorem Carries.after (carries : Carries period wave time earlier last) :
    ∀ frame ∈ earlier, time ≤ frame.1 := by
  induction earlier generalizing time with
  | nil => intro frame member; cases member
  | cons first frames ih =>
      obtain ⟨order, _, _, rest⟩ := carries
      intro frame member
      rcases List.mem_cons.mp member with rfl | member
      · exact order
      · have later := ih rest frame member
        omega

/-- Frames never overlap. -/
theorem Carries.pairwise (carries : Carries period wave time earlier last) :
    earlier.Pairwise fun before after => before.1 + 10 * period ≤ after.1 := by
  induction earlier generalizing time with
  | nil => exact .nil
  | cons first frames ih =>
      exact List.pairwise_cons.mpr ⟨carries.2.2.2.after, ih carries.2.2.2⟩

end Carries

variable (bus : UartBus)

/-! The sender -/

def charFrames (now : Nat) : List (BitVec 8) → List (Nat × BitVec 8)
  | [] => []
  | c :: rest => (now, c) :: charFrames (now + 10 * bus.uartBaudPeriod) rest

def stimulusFrames (now : Nat) : Stimulus → List (Nat × BitVec 8)
  | .wait _ => []
  | .char c => [(now, c)]
  | .checkpattern pattern => bus.charFrames now pattern.chars

/-- When the characters of a script are sent. -/
def frames (tx : Line) : List Stimulus → List (Nat × BitVec 8)
  | [] => []
  | stimulus :: rest =>
    bus.stimulusFrames tx.now stimulus ++ frames (bus.stimulate tx stimulus) rest

-- the line after the start bit and `count` bits of the character
structure Sending (tx sent : Line) (c : BitVec 8) (count : Nat) : Prop where
  now : sent.now = tx.now + count * bus.uartBaudPeriod
  before : ∀ time < tx.now, sent.wave time = tx.wave time
  level : ∀ time, tx.now ≤ time →
    sent.wave time = symbol c (min ((time - tx.now) / bus.uartBaudPeriod) count)

variable {bus}

theorem Sending.bit {tx sent : Line} {c : BitVec 8} {count : Nat}
    (positive : 0 < bus.uartBaudPeriod) (inside : count < 8)
    (sending : bus.Sending tx sent c count) :
    bus.Sending tx (bus.sendBit c sent count) c (count + 1) where
  now := by
    simp only [sendBit, Line.drive_now, Line.delay_now, sending.now, Nat.add_mul]
    omega
  before time early := by
    have later := sending.now
    rw [sendBit, Line.drive_wave, if_neg]
    · exact sending.before time early
    · simp only [Line.delay_now]
      omega
  level time after := by
    have later := sending.now
    have bit : (tx.now + count * bus.uartBaudPeriod + bus.uartBaudPeriod ≤ time) ↔
        count + 1 ≤ (time - tx.now) / bus.uartBaudPeriod := by
      rw [Nat.le_div_iff_mul_le positive, Nat.add_mul]
      omega
    rw [sendBit, Line.drive_wave, Line.delay_now, later]
    by_cases driven : tx.now + count * bus.uartBaudPeriod + bus.uartBaudPeriod ≤ time
    · rw [if_pos driven, Nat.min_eq_right (bit.mp driven), symbol, if_pos inside]
    · have below : (time - tx.now) / bus.uartBaudPeriod ≤ count := by
        have := mt bit.mpr driven
        omega
      rw [if_neg driven, Line.delay_wave, sending.level time after, Nat.min_eq_left below,
        Nat.min_eq_left (by omega)]

theorem Sending.bits (positive : 0 < bus.uartBaudPeriod) (tx : Line) (c : BitVec 8) (count : Nat)
    (inside : count ≤ 8) :
    bus.Sending tx ((List.range count).foldl (bus.sendBit c) (tx.drive false)) c count := by
  induction count with
  | zero =>
      refine ⟨by simp, fun time early => if_neg (by omega), fun time after => ?_⟩
      rw [List.range_zero, List.foldl_nil, Line.drive_wave, if_pos after, Nat.min_zero]
      rfl
  | succ count ih =>
      rw [List.range_succ, List.foldl_append]
      exact (ih (by omega)).bit positive (by omega)

theorem sendChar_now (positive : 0 < bus.uartBaudPeriod) (tx : Line) (c : BitVec 8) :
    (bus.sendChar c tx).now = tx.now + 10 * bus.uartBaudPeriod := by
  have bits := Sending.bits positive tx c 8 (Nat.le_refl 8)
  simp only [sendChar, Line.delay_now, Line.drive_now, bits.now]
  omega

theorem sendChar_before (positive : 0 < bus.uartBaudPeriod) (tx : Line) (c : BitVec 8) {time : Nat}
    (early : time < tx.now) : (bus.sendChar c tx).wave time = tx.wave time := by
  have bits := Sending.bits positive tx c 8 (Nat.le_refl 8)
  have later := bits.now
  rw [sendChar, Line.delay_wave, Line.drive_wave, if_neg]
  · exact bits.before time early
  · simp only [Line.delay_now]
    omega

theorem sendChar_wave (positive : 0 < bus.uartBaudPeriod) (tx : Line) (c : BitVec 8) {time : Nat}
    (after : tx.now ≤ time) :
    (bus.sendChar c tx).wave time = symbol c ((time - tx.now) / bus.uartBaudPeriod) := by
  have bits := Sending.bits positive tx c 8 (Nat.le_refl 8)
  have later := bits.now
  have stop : tx.now + 8 * bus.uartBaudPeriod + bus.uartBaudPeriod ≤ time ↔
      9 ≤ (time - tx.now) / bus.uartBaudPeriod := by
    rw [Nat.le_div_iff_mul_le positive]
    omega
  rw [sendChar, Line.delay_wave, Line.drive_wave, Line.delay_now, later]
  by_cases stopped : tx.now + 8 * bus.uartBaudPeriod + bus.uartBaudPeriod ≤ time
  · obtain ⟨more, same⟩ := Nat.exists_eq_add_of_le (stop.mp stopped)
    rw [if_pos stopped, same, show 9 + more = (8 + more) + 1 by omega, symbol, if_neg (by omega)]
  · have below : (time - tx.now) / bus.uartBaudPeriod ≤ 8 := by
      have := mt stop.mpr stopped
      omega
    rw [if_neg stopped, Line.delay_wave, bits.level time after, Nat.min_eq_left below]

def Stimulus.chars : Stimulus → List (BitVec 8)
  | .wait _ => []
  | .char c => [c]
  | .checkpattern pattern => pattern.chars

theorem charFrames_chars (chars : List (BitVec 8)) (now : Nat) :
    (bus.charFrames now chars).map Prod.snd = chars := by
  induction chars generalizing now with
  | nil => rfl
  | cons c rest ih => exact congrArg (c :: ·) (ih _)

theorem frames_chars (script : List Stimulus) (tx : Line) :
    (bus.frames tx script).map Prod.snd = script.flatMap Stimulus.chars := by
  induction script generalizing tx with
  | nil => rfl
  | cons stimulus rest ih =>
      rw [frames, List.map_append, ih, List.flatMap_cons]
      refine congrArg (· ++ _) ?_
      cases stimulus with
      | wait duration => rfl
      | char c => rfl
      | checkpattern pattern => exact charFrames_chars pattern.chars tx.now

/-- On an idle line, a sender has added the given frames, and left it idle. -/
structure Sends (bus : UartBus) (tx sent : Line) (frames : List (Nat × BitVec 8)) : Prop where
  before : ∀ time < tx.now, sent.wave time = tx.wave time
  carries : (∀ time, tx.now ≤ time → tx.wave time = true) →
    Carries bus.uartBaudPeriod sent.wave tx.now frames sent.now
  idle : (∀ time, tx.now ≤ time → tx.wave time = true) →
    ∀ time, sent.now ≤ time → sent.wave time = true

theorem Sends.refl (tx : Line) : Sends bus tx tx [] where
  before _ _ := rfl
  carries idle := ⟨Nat.le_refl _, fun later after _ => idle later after⟩
  idle idle := idle

theorem Sends.wait (tx : Line) (duration : Nat) : Sends bus tx (tx.delay duration) [] where
  before _ _ := rfl
  carries idle := ⟨Nat.le_add_right _ _, fun later after _ => idle later after⟩
  idle idle time after := idle time (Nat.le_trans (Nat.le_add_right _ _) after)

theorem Sends.char (positive : 0 < bus.uartBaudPeriod) (tx : Line) (c : BitVec 8) :
    Sends bus tx (bus.sendChar c tx) [(tx.now, c)] where
  before time early := sendChar_before positive tx c early
  carries _ := by
    have now := sendChar_now positive tx c
    refine ⟨Nat.le_refl _, fun later after below => absurd after (by omega),
      fun later after _ => sendChar_wave positive tx c after, by omega, ?_⟩
    intro later after below
    omega
  idle _ time after := by
    have now := sendChar_now positive tx c
    have stop : 9 ≤ (time - tx.now) / bus.uartBaudPeriod := by
      rw [Nat.le_div_iff_mul_le positive]
      omega
    obtain ⟨more, same⟩ := Nat.exists_eq_add_of_le stop
    rw [sendChar_wave positive tx c (by omega), same, show 9 + more = (8 + more) + 1 by omega,
      symbol, if_neg (by omega)]

theorem Sends.trans {tx middle sent : Line} {earlier later : List (Nat × BitVec 8)}
    (order : tx.now ≤ middle.now) (first : Sends bus tx middle earlier)
    (second : Sends bus middle sent later) : Sends bus tx sent (earlier ++ later) where
  before time early := (second.before time (by omega)).trans (first.before time early)
  carries idle :=
    ((first.carries idle).congr second.before).append (second.carries (first.idle idle))
  idle idle := second.idle (first.idle idle)

theorem sendChars_now (positive : 0 < bus.uartBaudPeriod) (tx : Line) (c : BitVec 8) :
    tx.now ≤ (bus.sendChar c tx).now := by
  rw [sendChar_now positive]
  omega

theorem Sends.chars (positive : 0 < bus.uartBaudPeriod) (chars : List (BitVec 8)) (tx : Line) :
    Sends bus tx (chars.foldl (fun tx c => bus.sendChar c tx) tx)
      (bus.charFrames tx.now chars) := by
  induction chars generalizing tx with
  | nil => exact .refl tx
  | cons c rest ih =>
      have later := ih (bus.sendChar c tx)
      rw [sendChar_now positive] at later
      exact (Sends.char positive tx c).trans (sendChars_now positive tx c) later

theorem sendCheckpatternFrom_eq (pattern : SvString) (fuel i : Nat) (tx : Line)
    (enough : pattern.chars.length < fuel + i) :
    bus.sendCheckpatternFrom pattern fuel i tx =
      (pattern.chars.drop i).foldl (fun tx c => bus.sendChar c tx) tx := by
  induction fuel generalizing i tx with
  | zero =>
      rw [List.drop_eq_nil_of_le (by omega)]
      rfl
  | succ fuel ih =>
      rw [sendCheckpatternFrom]
      by_cases inside : i < pattern.chars.length
      · have get : pattern.get i = pattern.chars[i] := by
          rw [SvString.get, List.getD_eq_getElem?_getD, List.getElem?_eq_getElem inside,
            Option.getD_some]
        have nonzero : pattern.get i ≠ 0 := by
          rw [get]
          exact ne_of_mem_of_not_mem (List.getElem_mem inside) pattern.noZero
        rw [if_pos nonzero, ih (i + 1) _ (by omega), List.drop_eq_getElem_cons inside,
          List.foldl_cons, get]
      · have get : pattern.get i = 0 := by
          rw [SvString.get, List.getD_eq_getElem?_getD, List.getElem?_eq_none (by omega),
            Option.getD_none]
        rw [if_neg (by simp [get]), List.drop_eq_nil_of_le (by omega)]
        rfl

theorem sendCheckpattern_eq (pattern : SvString) (tx : Line) :
    bus.sendCheckpattern pattern tx =
      pattern.chars.foldl (fun tx c => bus.sendChar c tx) tx :=
  sendCheckpatternFrom_eq pattern _ 0 tx (by omega)

theorem foldl_sendChar_now (positive : 0 < bus.uartBaudPeriod) (chars : List (BitVec 8))
    (tx : Line) : tx.now ≤ (chars.foldl (fun tx c => bus.sendChar c tx) tx).now := by
  induction chars generalizing tx with
  | nil => exact Nat.le_refl _
  | cons c rest ih => exact Nat.le_trans (sendChars_now positive tx c) (ih _)

theorem stimulate_now (positive : 0 < bus.uartBaudPeriod) (tx : Line) (stimulus : Stimulus) :
    tx.now ≤ (bus.stimulate tx stimulus).now := by
  cases stimulus with
  | wait duration => exact Nat.le_add_right _ _
  | char c => exact sendChars_now positive tx c
  | checkpattern pattern =>
      rw [stimulate, sendCheckpattern_eq]
      exact foldl_sendChar_now positive pattern.chars tx

theorem Sends.stimulus (positive : 0 < bus.uartBaudPeriod) (tx : Line) (stimulus : Stimulus) :
    Sends bus tx (bus.stimulate tx stimulus) (bus.stimulusFrames tx.now stimulus) := by
  cases stimulus with
  | wait duration => exact .wait tx duration
  | char c => exact .char positive tx c
  | checkpattern pattern =>
      rw [stimulate, sendCheckpattern_eq]
      exact .chars positive pattern.chars tx

theorem Sends.script (positive : 0 < bus.uartBaudPeriod) (script : List Stimulus) (tx : Line) :
    Sends bus tx (script.foldl bus.stimulate tx) (bus.frames tx script) := by
  induction script generalizing tx with
  | nil => exact .refl tx
  | cons stimulus rest ih =>
      exact (Sends.stimulus positive tx stimulus).trans (stimulate_now positive tx stimulus) (ih _)

end Atalanta.Testbench.UartBus
