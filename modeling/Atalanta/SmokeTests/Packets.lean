import Atalanta.SmokeTests.UartInterrupt

/-! The packets that `uart_rx_test` of `vip_rt_top.sv` sends, a payload and the text "SOCHUB", and
what the interrupt handler makes of them. -/

namespace Atalanta.SmokeTests

def packetEnd : List Byte := checkpattern.reverse

-- `uart_rx_test` sends the payloads "ABC"
def sendPackets (payloads : List Byte) : List Byte :=
  payloads.flatMap fun payload => payload :: packetEnd

/-- The bytes since the end of the last packet, and the payloads of the packets before. -/
structure Decoder where
  current : List Byte
  payloads : List Byte
deriving DecidableEq

def Decoder.step (decoder : Decoder) (data : Byte) : Decoder :=
  let current := decoder.current ++ [data]
  if window 6 current = packetEnd then ⟨[], decoder.payloads ++ [pushedBefore 6 current]⟩
  else ⟨current, decoder.payloads⟩

def decoded (stream : List Byte) : Decoder := stream.foldl Decoder.step ⟨[], []⟩

theorem decoded_append (stream : List Byte) (data : Byte) :
    decoded (stream ++ [data]) = (decoded stream).step data :=
  List.foldl_append

theorem window_missed (payload : Byte) {bytes : Nat} (short : bytes < 6) :
    window 6 ((payload :: packetEnd).take (bytes + 1)) ≠ packetEnd := by
  intro same
  match bytes, short with
  | 0, _ | 1, _ | 2, _ | 3, _ | 4, _ => exact absurd (List.cons.inj same).1 (by decide)
  | 5, _ => exact absurd (List.cons.inj (List.cons.inj same).2).1 (by decide)

theorem packet_begun (payload : Byte) (before : List Byte) {bytes : Nat} (short : bytes < 7) :
    ((payload :: packetEnd).take bytes).foldl Decoder.step ⟨[], before⟩ =
      ⟨(payload :: packetEnd).take bytes, before⟩ := by
  induction bytes with
  | zero => rfl
  | succ bytes ih =>
      have inside : bytes < (payload :: packetEnd).length := Nat.lt_of_succ_lt short
      have missed := window_missed payload (Nat.lt_of_succ_lt_succ short)
      rw [List.take_succ_eq_append_getElem inside] at missed ⊢
      rw [List.foldl_append, ih (Nat.lt_of_succ_lt short), List.foldl_cons, List.foldl_nil,
        Decoder.step, if_neg missed]

theorem packet_ended (payload : Byte) (before : List Byte) :
    (payload :: packetEnd).foldl Decoder.step ⟨[], before⟩ = ⟨[], before ++ [payload]⟩ := by
  have begun := packet_begun payload before (show 6 < 7 by decide)
  have split : payload :: packetEnd = (payload :: packetEnd).take 6 ++ [0x42] := rfl
  rw [split, List.foldl_append, begun, List.foldl_cons, List.foldl_nil, Decoder.step]
  exact if_pos rfl

theorem decoded_packets (payloads before : List Byte) (bytes : Nat) :
    (((sendPackets payloads).take bytes).foldl Decoder.step ⟨[], before⟩).payloads =
      before ++ payloads.take (bytes / 7) := by
  induction payloads generalizing before bytes with
  | nil => simp [sendPackets]
  | cons payload payloads ih =>
      have length : (payload :: packetEnd).length = 7 := rfl
      rw [sendPackets, List.flatMap_cons]
      by_cases short : bytes < 7
      · rw [List.take_append_of_le_length (by omega), packet_begun payload before short,
          Nat.div_eq_of_lt short, List.take_zero, List.append_nil]
      · obtain ⟨more, rfl⟩ := Nat.exists_eq_add_of_le (Nat.not_lt.mp short)
        have rest := ih (before ++ [payload]) more
        rw [← length, List.take_length_add_append, List.foldl_append, packet_ended, length]
        rw [sendPackets] at rest
        rw [rest, Nat.add_div_left more (by decide), List.take_succ_cons, List.append_assoc]
        rfl

/-! The interrupt handler -/

/-- The pattern buffers of the handler that has read the bytes. -/
structure Decodes (bytes : List Byte) (uart : UartState) : Prop where
  current : Slides uart.checkpatternPattBuf 6 (decoded bytes).current
  checkpattern : uart.checkpatternPattBuf.pattern = (staticPattern checkpattern).pattern
  payloads : Slides uart.payloadPattBuf 3 (decoded bytes).payloads
  payloadPattern : uart.payloadPattBuf.pattern = (staticPattern payloadPattern).pattern

theorem decodes_initial : Decodes [] .initial where
  current := ⟨rfl, ⟨fun _ => 0, 5, rfl, rfl, by decide, by decide⟩, by decide, rfl⟩
  checkpattern := rfl
  payloads := ⟨rfl, ⟨fun _ => 0, 2, rfl, rfl, by decide, by decide⟩, by decide, rfl⟩
  payloadPattern := rfl

theorem patternBytes_reverse {pb : PatternBuffer} {len : BitVec 8} {stream : List Byte}
    (slides : Slides pb len stream) {pattern : List Byte} (short : pattern.length = len.toNat)
    (same : pb.pattern = (staticPattern pattern).pattern) :
    pb.patternBytes.reverse = pattern.reverse := by
  congr 1
  apply List.ext_getElem
  · simp [PatternBuffer.patternBytes, slides.len_eq, short]
  · intro index inside within
    simp [PatternBuffer.patternBytes, same, staticPattern, List.getElem?_eq_getElem within]

theorem decodes_receiveByte {bytes : List Byte} {uart : UartState} (decodes : Decodes bytes uart)
    (data : Byte) :
    ∃ next, receiveByte data uart = some next ∧ Decodes (bytes ++ [data]) next := by
  have slid : Slides (takeByte data uart).checkpatternPattBuf 6
      ((decoded bytes).current ++ [data]) := decodes.current.push data
  have pattern : (takeByte data uart).checkpatternPattBuf.pattern =
      (staticPattern checkpattern).pattern :=
    (push_pattern uart.checkpatternPattBuf data).trans decodes.checkpattern
  have check : patternBufferCheckPattern (takeByte data uart).checkpatternPattBuf =
      some (decide (window 6 ((decoded bytes).current ++ [data]) = packetEnd)) := by
    rw [slid.check, patternBytes_reverse slid rfl pattern]
    rfl
  rw [receiveByte, check, Option.bind_some]
  by_cases ended : window 6 ((decoded bytes).current ++ [data]) = packetEnd
  · have payload : (takeByte data uart).checkpatternPattBuf.payload =
        pushedBefore 6 ((decoded bytes).current ++ [data]) := slid.payload
    have next : decoded (bytes ++ [data]) = ⟨[], (decoded bytes).payloads ++
        [(takeByte data uart).checkpatternPattBuf.payload]⟩ := by
      rw [decoded_append, Decoder.step, if_pos ended, payload]
    obtain ⟨cells, _, buffer, _⟩ := slid.buffer
    obtain ⟨cleared, reset, kept, empty⟩ := reset_slides _ buffer (by rw [slid.len_eq]; decide)
    rw [slid.len_eq] at empty
    rw [if_pos (decide_eq_true ended), storeMatched, reset]
    refine ⟨_, rfl, ?_⟩
    exact ⟨next ▸ empty, kept.trans pattern, next ▸ decodes.payloads.push _,
      (push_pattern ..).trans decodes.payloadPattern⟩
  · have next : decoded (bytes ++ [data]) =
        ⟨(decoded bytes).current ++ [data], (decoded bytes).payloads⟩ := by
      rw [decoded_append, Decoder.step, if_neg ended]
    refine ⟨takeByte data uart, if_neg (by simpa using ended), ?_⟩
    exact ⟨next ▸ slid, pattern, next ▸ decodes.payloads, decodes.payloadPattern⟩

theorem decodes_sendQueued {bytes : List Byte} {uart next : UartState}
    (decodes : Decodes bytes uart) (sent : sendQueued (disableInterrupts uart) = some next) :
    Decodes bytes next := by
  unfold sendQueued startTx at sent
  split at sent
  · cases sent
    exact ⟨decodes.current, decodes.checkpattern, decodes.payloads, decodes.payloadPattern⟩
  · obtain ⟨_, _, rfl⟩ := Option.map_eq_some_iff.mp sent
    exact ⟨decodes.current, decodes.checkpattern, decodes.payloads, decodes.payloadPattern⟩

def Receiver.reads (state : Receiver) : ReceiverEvent → List Byte
  | .interrupt _ | .pop => []
  | .round rx => if state.inLoop && state.uart.loops rx then [rx.rbr] else []

/-- The bytes read from the receive register in a run. -/
def readBytes : List ReceiverEvent → Receiver → List Byte
  | [], _ => []
  | event :: events, state =>
    state.reads event ++ ((Receiver.step event state).map (readBytes events)).getD []

theorem decodes_step {bytes : List Byte} {event : ReceiverEvent} {state next : Receiver}
    (decodes : Decodes bytes state.uart) (stepped : Receiver.step event state = some next) :
    Decodes (bytes ++ state.reads event) next.uart := by
  obtain ⟨uart, inLoop, popped⟩ := state
  cases event with
  | interrupt interruptIdent =>
      rw [Receiver.reads, List.append_nil]
      cases inLoop with
      | true =>
          cases stepped
          exact decodes
      | false =>
          simp only [Receiver.step, Receiver.enter] at stepped
          split at stepped
          · obtain ⟨sent, ran, rfl⟩ := Option.map_eq_some_iff.mp stepped
            exact decodes_sendQueued decodes ran
          · cases stepped
            exact decodes
  | round rx =>
      cases inLoop with
      | false =>
          cases stepped
          rw [Receiver.reads, Bool.false_and, if_neg Bool.false_ne_true, List.append_nil]
          exact decodes
      | true =>
          simp only [Receiver.step, Receiver.round] at stepped
          rw [Receiver.reads, Bool.true_and]
          by_cases loops : uart.loops rx = true
          · obtain ⟨after, read, decoding⟩ := decodes_receiveByte decodes rx.rbr
            rw [if_pos loops, read] at stepped
            cases stepped
            rw [if_pos loops]
            exact decoding
          · rw [if_neg loops] at stepped
            cases stepped
            rw [if_neg loops, List.append_nil]
            exact decodes
  | pop =>
      rw [Receiver.reads, List.append_nil]
      cases inLoop with
      | true =>
          cases stepped
          exact decodes
      | false =>
          simp only [Receiver.step, Receiver.pop] at stepped
          split at stepped
          · cases stepped
            exact decodes
          · obtain ⟨popped, _, rfl⟩ := Option.map_eq_some_iff.mp stepped
            exact ⟨decodes.current, decodes.checkpattern, decodes.payloads, decodes.payloadPattern⟩

theorem decodes_run {bytes : List Byte} (events : List ReceiverEvent) {state last : Receiver}
    (decodes : Decodes bytes state.uart)
    (ran : Runs.run Receiver.step events state = some last) :
    Decodes (bytes ++ readBytes events state) last.uart := by
  induction events generalizing bytes state with
  | nil =>
      cases ran
      rw [readBytes, List.append_nil]
      exact decodes
  | cons event events ih =>
      obtain ⟨next, stepped, rest⟩ := Option.bind_eq_some_iff.mp ran
      rw [readBytes, stepped, ← List.append_assoc]
      exact ih (decodes_step decodes stepped) rest

/-- In every run the payload buffer holds the last payloads of the packets in the bytes read, and
of packets as they are sent it holds those that are complete. -/
theorem packets_decoded (events : List ReceiverEvent) :
    ∃ last, Runs.run Receiver.step events .initial = some last ∧
      Matches last.uart.payloadPattBuf payloadPattern
        (decoded (readBytes events .initial)).payloads ∧
      ∀ payloads, readBytes events .initial <+: sendPackets payloads →
        (decoded (readBytes events .initial)).payloads =
          payloads.take ((readBytes events .initial).length / 7) := by
  obtain ⟨last, _, ran, _⟩ := Runs.run_losses account_step events 0 _ account_initial
  have decodes := decodes_run events decodes_initial ran
  rw [List.nil_append] at decodes
  refine ⟨last, ran, ?_, fun payloads sent => ?_⟩
  · have slides := decodes.payloads
    have length : last.uart.payloadPattBuf.length = payloadPattern.length := by
      rw [PatternBuffer.length, slides.len_eq]
      rfl
    refine ⟨length ▸ slides.head_lt, length ▸ slides.tail_lt, slides.payload, ?_⟩
    rw [slides.check, patternBytes_reverse slides rfl decodes.payloadPattern]
    rfl
  · have complete := decoded_packets payloads [] (readBytes events .initial).length
    rw [← List.prefix_iff_eq_take.mp sent] at complete
    exact complete

end Atalanta.SmokeTests
