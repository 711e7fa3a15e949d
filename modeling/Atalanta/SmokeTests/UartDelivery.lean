import Atalanta.SmokeTests.UartTransmit

/-! The characters on their way from the calls of `write_serial` to the transmitter. -/

namespace Atalanta.SmokeTests

/-- The character of a call that is accepted: the main program makes one call after the other. -/
def TransmissionEvent.accepted (event : TransmissionEvent) (state : Transmission) : Option Byte :=
  match event with
  | .call a => if state.handler = .idle ∧ state.main = .outside then some a else none
  | _ => none

/-- A step with the character of the call that it accepts. -/
def Transmission.accepting (event : TransmissionEvent) (state : Transmission) :
    Option (Transmission × Option Byte) :=
  (Transmission.step event state).map fun next => (next, event.accepted state)

-- the character that is not in the queue yet
def SerialPoint.waiting : SerialPoint → List Byte
  | .outside | .enabling => []
  | .polling a | .disabling a | .pushing a => [a]

def Transmission.onTheWay (state : Transmission) : List Byte :=
  state.uart.transmitted ++ state.uart.txBuffer.stored ++ state.main.waiting

section Steps

variable {queue : List Byte} {state next : Transmission}

theorem onTheWay_statement (coherent : state.Coherent queue) (idle : state.handler = .idle) :
    (writeSerialStatement state).onTheWay = state.onTheWay := by
  obtain ⟨uart, transmitEmpty, main, handler⟩ := state
  obtain rfl : handler = .idle := idle
  cases main with
  | outside => rfl
  | polling a =>
      by_cases full : circularBufferFull uart.txBuffer = true
      · simp only [writeSerialStatement, if_pos full]
      · simp only [writeSerialStatement, if_neg full]
        rfl
  | disabling a => rfl
  | enabling => rfl
  | pushing a =>
      have before : uart.txBuffer.stored = queue := coherent.represents.stored_eq
      have after : (circularBufferPush uart.txBuffer a).stored = queue ++ [a] :=
        (Coherent.pushed coherent).represents.stored_eq
      simp only [writeSerialStatement, Transmission.onTheWay, before, after,
        SerialPoint.waiting, List.append_nil, List.append_assoc]

theorem onTheWay_handler (coherent : state.Coherent queue)
    (stepped : handlerStatement state = some next) : next.onTheWay = state.onTheWay := by
  obtain ⟨uart, transmitEmpty, main, handler⟩ := state
  cases handler with
  | idle => exact Option.some.inj stepped ▸ rfl
  | disabling => exact Option.some.inj stepped ▸ rfl
  | sending =>
      have represents : Represents uart.txBuffer queue := coherent.represents
      cases queue with
      | nil =>
          have unsent : sendQueued uart = some uart := if_pos (represents.empty_iff.mpr rfl)
          simp only [handlerStatement, unsent, Option.map_some, Option.some.injEq] at stepped
          exact stepped ▸ rfl
      | cons first rest =>
          have filled : ¬circularBufferEmpty uart.txBuffer = true := by
            rw [represents.empty_iff]
            exact List.cons_ne_nil first rest
          have sent : sendQueued uart = some { uart with
              txBuffer := uart.txBuffer.advanceTail.wrapTail
              transmitted := uart.transmitted ++ [first] } := by
            simp only [sendQueued, startTx, if_neg filled, represents.pop, Option.map_some]
          simp only [handlerStatement, sent, Option.map_some, Option.some.injEq] at stepped
          subst stepped
          simp only [Transmission.onTheWay, represents.stored_eq, represents.advance.stored_eq,
            List.append_assoc, List.singleton_append]

theorem onTheWay_step (event : TransmissionEvent) (coherent : state.Coherent queue)
    (stepped : Transmission.step event state = some next) :
    next.onTheWay = state.onTheWay ++ (event.accepted state).toList := by
  cases event with
  | call a =>
      by_cases starts : state.handler = .idle ∧ state.main = .outside
      · have accepted : (TransmissionEvent.call a).accepted state = some a := if_pos starts
        simp only [Transmission.step, if_pos starts, Option.some.injEq] at stepped
        subst stepped
        simp only [Transmission.onTheWay, accepted, starts.2, SerialPoint.waiting,
          List.append_nil, Option.toList_some]
      · have refused : (TransmissionEvent.call a).accepted state = none := if_neg starts
        simp only [Transmission.step, if_neg starts, Option.some.injEq] at stepped
        rw [refused, ← stepped]
        exact (List.append_nil _).symm
  | statement =>
      refine Eq.trans ?_ (List.append_nil _).symm
      by_cases idle : state.handler = .idle
      · simp only [Transmission.step, if_pos idle, Option.some.injEq] at stepped
        exact stepped ▸ onTheWay_statement coherent idle
      · simp only [Transmission.step, if_neg idle, Option.some.injEq] at stepped
        rw [stepped]
  | interrupt =>
      refine Eq.trans ?_ (List.append_nil _).symm
      simp only [Transmission.step] at stepped
      split at stepped
      · exact Option.some.inj stepped ▸ rfl
      · exact Option.some.inj stepped ▸ rfl
  | handler => exact (onTheWay_handler coherent stepped).trans (List.append_nil _).symm
  | transmitted =>
      refine Eq.trans ?_ (List.append_nil _).symm
      exact Option.some.inj stepped ▸ rfl

end Steps

theorem accepting_run (events : List TransmissionEvent) :
    ∀ {queue : List Byte} {state : Transmission}, state.Coherent queue →
      ∃ last calls, Refinement.runs Transmission.accepting events state = some (last, calls) ∧
        last.onTheWay = state.onTheWay ++ calls.reduceOption := by
  induction events with
  | nil =>
      intro queue state _
      exact ⟨state, [], rfl, (List.append_nil _).symm⟩
  | cons event events ih =>
      intro queue state coherent
      obtain ⟨next, after, stepped, kept, _⟩ := coherent_step event coherent
      obtain ⟨last, calls, ran, reached⟩ := ih kept
      have moved := onTheWay_step event coherent stepped
      refine ⟨last, event.accepted state :: calls, ?_, ?_⟩
      · simp only [Refinement.runs, Transmission.accepting, stepped, Option.map_some,
          Option.bind_some, ran]
      · rw [reached, moved, List.append_assoc]
        cases event.accepted state with
        | none => rfl
        | some a => rfl

/-- In any run the transmitter gets the characters of the calls in their order, none of them twice
and none lost: the others are still queued, the last one perhaps not yet. -/
theorem transmission_in_order (events : List TransmissionEvent) :
    ∃ last calls, Refinement.runs Transmission.accepting events .initial = some (last, calls) ∧
      last.uart.transmitted ++ last.uart.txBuffer.stored ++ last.main.waiting =
        calls.reduceOption := by
  obtain ⟨last, calls, ran, reached⟩ := accepting_run events coherent_initial
  exact ⟨last, calls, ran, reached.trans rfl⟩

end Atalanta.SmokeTests
