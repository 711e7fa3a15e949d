import Atalanta.SmokeTests.UartInterrupt

/-! Transmission through the queue: `write_serial` in the main program, statement by statement,
and `uart_handler` as the transmit interrupt. -/

namespace Atalanta.SmokeTests

inductive SerialPoint
  | outside
  | polling (a : Byte)
  | disabling (a : Byte)
  | pushing (a : Byte)
  | enabling
deriving DecidableEq

-- the handler has read 1 as its interrupt's identification
inductive HandlerPoint
  | idle
  | disabling
  | sending
deriving DecidableEq

structure Transmission where
  uart : UartState
  transmitEmpty : Bool
  main : SerialPoint
  handler : HandlerPoint

inductive TransmissionEvent
  | call (a : Byte)
  | statement
  | interrupt
  | handler
  | transmitted

def Transmission.initial : Transmission := ⟨.initial, true, .outside, .idle⟩

def Transmission.enabled (state : Transmission) : Bool := state.uart.interruptEnable.getLsbD 1

def writeSerialStatement (state : Transmission) : Transmission :=
  match state.main with
  | .outside => state
  | .polling a =>
      if circularBufferFull state.uart.txBuffer then state else { state with main := .disabling a }
  | .disabling a =>
      { state with uart := { state.uart with interruptEnable := 0x00 }, main := .pushing a }
  | .pushing a =>
      { state with
        uart := { state.uart with txBuffer := circularBufferPush state.uart.txBuffer a }
        main := .enabling }
  | .enabling =>
      { state with uart := { state.uart with interruptEnable := 0x02 }, main := .outside }

def handlerStatement (state : Transmission) : Option Transmission :=
  match state.handler with
  | .idle => some state
  | .disabling => some { state with uart := disableInterrupts state.uart, handler := .sending }
  | .sending => (sendQueued state.uart).map fun uart =>
      { state with
        uart := uart
        transmitEmpty := state.transmitEmpty && circularBufferEmpty state.uart.txBuffer
        handler := .idle }

-- the main program stands still while the handler runs
def Transmission.step (event : TransmissionEvent) (state : Transmission) : Option Transmission :=
  match event with
  | .call a =>
      if state.handler = .idle ∧ state.main = .outside then some { state with main := .polling a }
      else some state
  | .statement => if state.handler = .idle then some (writeSerialStatement state) else some state
  | .interrupt =>
      if state.handler = .idle ∧ state.enabled ∧ state.transmitEmpty then
        some { state with handler := .disabling }
      else some state
  | .handler => handlerStatement state
  | .transmitted => some { state with transmitEmpty := true }

/-- Between the two writes to the interrupt enable register in `write_serial`. -/
def SerialPoint.Between : SerialPoint → Prop
  | .pushing _ | .enabling => True
  | _ => False

def SerialPoint.HasRoom : SerialPoint → Prop
  | .disabling _ | .pushing _ => True
  | _ => False

def NotStranded (state : Transmission) : Prop :=
  state.uart.txBuffer.stored ≠ [] → ¬state.main.Between →
    state.enabled = true ∨ state.handler ≠ .idle

def NeverSpins (state : Transmission) : Prop :=
  ∀ a, state.main = .polling a → circularBufferFull state.uart.txBuffer = true →
    state.enabled = true ∨ state.handler ≠ .idle

/-- The handler takes a character from a queue that holds no other. -/
def TakesLast (event : TransmissionEvent) (state : Transmission) : Prop :=
  match event, state.handler with
  | .handler, .sending => state.uart.txBuffer.stored.length ≤ 1
  | _, _ => True

structure Coherent (queue : List Byte) (tx : CircularBuffer) (enabled : Bool) (main : SerialPoint)
    (handler : HandlerPoint) : Prop where
  size_eq : tx.size = uartBufferSize
  represents : Represents tx queue
  between : main.Between → enabled = false ∧ handler = .idle
  sending : handler = .sending → enabled = false
  room : main.HasRoom → queue.length + 1 < uartBufferSize.toNat
  full : queue.length + 1 = uartBufferSize.toNat → handler = .idle → ¬main.Between →
    enabled = true

def Served (queue : List Byte) (enabled : Bool) (main : SerialPoint) (handler : HandlerPoint) :
    Prop :=
  queue ≠ [] → ¬main.Between → enabled = true ∨ handler ≠ .idle

def Transmission.Coherent (state : Transmission) (queue : List Byte) : Prop :=
  SmokeTests.Coherent queue state.uart.txBuffer state.enabled state.main state.handler

def Transmission.Served (state : Transmission) (queue : List Byte) : Prop :=
  SmokeTests.Served queue state.enabled state.main state.handler

section Points

variable {queue : List Byte} {tx : CircularBuffer} {enabled after : Bool} {main : SerialPoint}
  {handler : HandlerPoint}

theorem Coherent.polled {a : Byte} (coherent : Coherent queue tx enabled (.polling a) .idle)
    (space : ¬circularBufferFull tx = true) : Coherent queue tx enabled (.disabling a) .idle where
  size_eq := coherent.size_eq
  represents := coherent.represents
  between := False.elim
  sending := coherent.sending
  room _ := by
    have below := coherent.represents.length_lt
    rw [coherent.represents.full_iff, coherent.size_eq] at space
    rw [coherent.size_eq] at below
    omega
  full := coherent.full

theorem Coherent.disabled {a : Byte} (coherent : Coherent queue tx enabled (.disabling a) .idle)
    (off : after = false) : Coherent queue tx after (.pushing a) .idle where
  size_eq := coherent.size_eq
  represents := coherent.represents
  between _ := ⟨off, rfl⟩
  sending := fun sending => by cases sending
  room _ := coherent.room trivial
  full _ _ outside := absurd trivial outside

theorem Coherent.pushed {a : Byte} (coherent : Coherent queue tx enabled (.pushing a) .idle) :
    Coherent (queue ++ [a]) (circularBufferPush tx a) enabled .enabling .idle where
  size_eq := (push_size tx a).trans coherent.size_eq
  represents := by
    have space := coherent.room trivial
    rw [← coherent.size_eq] at space
    exact coherent.represents.push space a
  between _ := coherent.between trivial
  sending := coherent.sending
  room := False.elim
  full _ _ outside := absurd trivial outside

theorem Coherent.returned (coherent : Coherent queue tx enabled .enabling .idle)
    (on : after = true) : Coherent queue tx after .outside .idle where
  size_eq := coherent.size_eq
  represents := coherent.represents
  between := False.elim
  sending := fun sending => by cases sending
  room := False.elim
  full _ _ _ := on

theorem Coherent.called {a : Byte} (coherent : Coherent queue tx enabled .outside .idle) :
    Coherent queue tx enabled (.polling a) .idle where
  size_eq := coherent.size_eq
  represents := coherent.represents
  between := False.elim
  sending := coherent.sending
  room := False.elim
  full filled idle _ := coherent.full filled idle not_false

theorem Coherent.interrupted (coherent : Coherent queue tx enabled main .idle)
    (on : enabled = true) : Coherent queue tx enabled main .disabling where
  size_eq := coherent.size_eq
  represents := coherent.represents
  between inside := absurd on (Bool.not_eq_true _ ▸ (coherent.between inside).1)
  sending := fun sending => by cases sending
  room := coherent.room
  full _ idle := by cases idle

theorem Coherent.silenced (coherent : Coherent queue tx enabled main .disabling)
    (off : after = false) : Coherent queue tx after main .sending where
  size_eq := coherent.size_eq
  represents := coherent.represents
  between inside := by cases (coherent.between inside).2
  sending _ := off
  room := coherent.room
  full _ idle := by cases idle

theorem Coherent.outside (coherent : Coherent queue tx enabled main .sending) : ¬main.Between := by
  intro inside
  cases (coherent.between inside).2

theorem Coherent.unsent (coherent : Coherent [] tx enabled main .sending) :
    Coherent [] tx enabled main .idle where
  size_eq := coherent.size_eq
  represents := coherent.represents
  between inside := absurd inside coherent.outside
  sending := fun sending => by cases sending
  room := coherent.room
  full filled := by cases filled

theorem Coherent.sent {first : Byte}
    (coherent : Coherent (first :: queue) tx enabled main .sending) :
    Coherent queue tx.advanceTail.wrapTail enabled main .idle where
  size_eq := (wrapTail_size _).trans coherent.size_eq
  represents := coherent.represents.advance
  between inside := absurd inside coherent.outside
  sending := fun sending => by cases sending
  room _ := by
    have below := coherent.represents.length_lt
    rw [coherent.size_eq, List.length_cons] at below
    exact below
  full filled := by
    have below := coherent.represents.length_lt
    rw [coherent.size_eq, List.length_cons] at below
    omega

end Points

section Steps

variable {queue : List Byte} {state : Transmission}

theorem notStranded_iff (coherent : state.Coherent queue) :
    NotStranded state ↔ state.Served queue := by
  rw [NotStranded, coherent.represents.stored_eq, Transmission.Served, Served]

theorem neverSpins (coherent : state.Coherent queue) : NeverSpins state := by
  intro a polling full
  rw [coherent.represents.full_iff, coherent.size_eq] at full
  by_cases idle : state.handler = .idle
  · refine .inl (coherent.full full idle ?_)
    rw [polling]
    exact not_false
  · exact .inr idle

theorem coherent_statement (coherent : state.Coherent queue) (idle : state.handler = .idle) :
    ∃ after, (writeSerialStatement state).Coherent after ∧
      (state.Served queue → (writeSerialStatement state).Served after) := by
  obtain ⟨uart, transmitEmpty, main, handler⟩ := state
  obtain rfl : handler = .idle := idle
  cases main with
  | outside => exact ⟨queue, coherent, id⟩
  | polling a =>
      by_cases full : circularBufferFull uart.txBuffer = true
      · simp only [writeSerialStatement, if_pos full]
        exact ⟨queue, coherent, id⟩
      · simp only [writeSerialStatement, if_neg full]
        exact ⟨queue, Coherent.polled coherent full, id⟩
  | disabling a =>
      refine ⟨queue, Coherent.disabled coherent ?_, fun _ _ outside => absurd trivial outside⟩
      simp [Transmission.enabled, writeSerialStatement]
  | pushing a =>
      exact ⟨queue ++ [a], Coherent.pushed coherent, fun _ _ outside => absurd trivial outside⟩
  | enabling =>
      have on : (writeSerialStatement ⟨uart, transmitEmpty, .enabling, .idle⟩).enabled = true := by
        simp [Transmission.enabled, writeSerialStatement]
      exact ⟨queue, Coherent.returned coherent on, fun _ _ _ => .inl on⟩

theorem coherent_handler (coherent : state.Coherent queue) :
    ∃ next after, handlerStatement state = some next ∧ next.Coherent after ∧
      (TakesLast .handler state → state.Served queue → next.Served after) ∧
      (¬TakesLast .handler state → ¬next.Served after) := by
  obtain ⟨uart, transmitEmpty, main, handler⟩ := state
  cases handler with
  | idle => exact ⟨_, queue, rfl, coherent, fun _ => id, fun refused => absurd trivial refused⟩
  | disabling =>
      refine ⟨_, queue, rfl, Coherent.silenced coherent ?_,
        fun _ _ _ _ => .inr HandlerPoint.noConfusion, fun refused => absurd trivial refused⟩
      simp [Transmission.enabled, disableInterrupts]
  | sending =>
      have represents : Represents uart.txBuffer queue := coherent.represents
      cases queue with
      | nil =>
          have unsent : sendQueued uart = some uart := if_pos (represents.empty_iff.mpr rfl)
          simp only [handlerStatement, unsent, Option.map_some]
          refine ⟨_, [], rfl, Coherent.unsent coherent, fun _ _ nonempty => absurd rfl nonempty,
            fun refused => absurd ?_ refused⟩
          simp only [TakesLast, represents.stored_eq, List.length_nil, Nat.zero_le]
      | cons first rest =>
          have filled : ¬circularBufferEmpty uart.txBuffer = true := by
            rw [represents.empty_iff]
            exact List.cons_ne_nil first rest
          have sent : sendQueued uart = some { uart with
              txBuffer := uart.txBuffer.advanceTail.wrapTail
              transmitted := uart.transmitted ++ [first] } := by
            simp only [sendQueued, startTx, if_neg filled, represents.pop, Option.map_some]
          simp only [handlerStatement, sent, Option.map_some, TakesLast, represents.stored_eq,
            List.length_cons]
          refine ⟨_, rest, rfl, Coherent.sent coherent, fun takes _ nonempty => ?_,
            fun takes served => ?_⟩
          · exact absurd (List.length_eq_zero_iff.mp (by omega)) nonempty
          · have nonempty : rest ≠ [] := by
              rintro rfl
              exact takes (Nat.le_refl 1)
            have disabled := coherent.sending rfl
            rcases served nonempty coherent.outside with enabled | running
            · exact Bool.false_ne_true (disabled.symm.trans enabled)
            · exact running rfl

/-- One step of the transmission: a character is stranded exactly when the handler takes one of
several. -/
theorem coherent_step (event : TransmissionEvent) (coherent : state.Coherent queue) :
    ∃ next after, Transmission.step event state = some next ∧ next.Coherent after ∧
      (TakesLast event state → state.Served queue → next.Served after) ∧
      (¬TakesLast event state → ¬next.Served after) := by
  cases event with
  | call a =>
      by_cases starts : state.handler = .idle ∧ state.main = .outside
      · obtain ⟨uart, transmitEmpty, main, handler⟩ := state
        obtain ⟨rfl, rfl⟩ := starts
        exact ⟨⟨uart, transmitEmpty, .polling a, .idle⟩, queue, rfl, Coherent.called coherent,
          fun _ served nonempty _ => served nonempty not_false,
          fun refused => absurd trivial refused⟩
      · exact ⟨state, queue, if_neg starts, coherent, fun _ => id,
          fun refused => absurd trivial refused⟩
  | statement =>
      by_cases idle : state.handler = .idle
      · obtain ⟨after, kept, served⟩ := coherent_statement coherent idle
        exact ⟨_, after, if_pos idle, kept, fun _ => served, fun refused => absurd trivial refused⟩
      · exact ⟨state, queue, if_neg idle, coherent, fun _ => id,
          fun refused => absurd trivial refused⟩
  | interrupt =>
      by_cases taken : state.handler = .idle ∧ state.enabled ∧ state.transmitEmpty
      · obtain ⟨uart, transmitEmpty, main, handler⟩ := state
        have idle : handler = .idle := taken.1
        subst idle
        exact ⟨⟨uart, transmitEmpty, main, .disabling⟩, queue, if_pos taken,
          Coherent.interrupted coherent taken.2.1,
          fun _ _ _ _ => .inr HandlerPoint.noConfusion, fun refused => absurd trivial refused⟩
      · exact ⟨state, queue, if_neg taken, coherent, fun _ => id,
          fun refused => absurd trivial refused⟩
  | handler => exact coherent_handler coherent
  | transmitted =>
      exact ⟨_, queue, rfl, coherent, fun _ => id, fun refused => absurd trivial refused⟩

end Steps

theorem coherent_initial : Transmission.initial.Coherent [] where
  size_eq := rfl
  represents := init_represents _ (by decide)
  between := False.elim
  sending := fun sending => by cases sending
  room := False.elim
  full filled := by cases filled

/-- Queued characters always have an interrupt to come exactly in the runs in which the handler
never takes a character from a queue of several; the polling loop waits for one in any run. -/
theorem transmission_served_iff (events : List TransmissionEvent) :
    (Runs.Throughout Transmission.step NotStranded events .initial ↔
      Runs.Along Transmission.step TakesLast events .initial) ∧
    Runs.Throughout Transmission.step NeverSpins events .initial := by
  have sound (state : Transmission) : (∃ queue, state.Coherent queue ∧ state.Served queue) →
      NotStranded state := by
    rintro ⟨queue, coherent, served⟩
    exact (notStranded_iff coherent).mpr served
  have keeps (event : TransmissionEvent) (state next : Transmission) :
      (∃ queue, state.Coherent queue ∧ state.Served queue) → TakesLast event state →
      Transmission.step event state = some next →
      ∃ queue, next.Coherent queue ∧ next.Served queue := by
    rintro ⟨queue, coherent, served⟩ admitted stepped
    obtain ⟨result, after, same, kept, serves, _⟩ := coherent_step event coherent
    obtain rfl := Option.some.inj (same.symm.trans stepped)
    exact ⟨after, kept, serves admitted served⟩
  have breaks (event : TransmissionEvent) (state next : Transmission) :
      (∃ queue, state.Coherent queue ∧ state.Served queue) → ¬TakesLast event state →
      Transmission.step event state = some next → ¬NotStranded next := by
    rintro ⟨queue, coherent, _⟩ refused stepped
    obtain ⟨result, after, same, kept, _, strands⟩ := coherent_step event coherent
    obtain rfl := Option.some.inj (same.symm.trans stepped)
    exact mt (notStranded_iff kept).mp (strands refused)
  have spins (state : Transmission) : (∃ queue, state.Coherent queue) → NeverSpins state := by
    rintro ⟨queue, coherent⟩
    exact neverSpins coherent
  have coheres (event : TransmissionEvent) (state next : Transmission) :
      (∃ queue, state.Coherent queue) → Transmission.step event state = some next →
      ∃ queue, next.Coherent queue := by
    rintro ⟨queue, coherent⟩ stepped
    obtain ⟨result, after, same, kept, _⟩ := coherent_step event coherent
    obtain rfl := Option.some.inj (same.symm.trans stepped)
    exact ⟨after, kept⟩
  constructor
  · exact Runs.throughout_iff_along sound keeps breaks events _
      ⟨[], coherent_initial, fun nonempty => absurd rfl nonempty⟩
  · exact Runs.throughout_of_invariant spins coheres events _ ⟨[], coherent_initial⟩

/-- The three bytes are queued while the transmitter is busy with the first: one interrupt later
the last one waits with the interrupt disabled and no handler to come. -/
theorem transmission_strands :
    ∃ last, Runs.run Transmission.step
        [.call 0x61, .statement, .statement, .statement, .statement, .interrupt, .handler, .handler,
          .call 0x62, .statement, .statement, .statement, .statement,
          .call 0x63, .statement, .statement, .statement, .statement,
          .transmitted, .interrupt, .handler, .handler, .transmitted] .initial = some last ∧
      last.uart.transmitted = [0x61, 0x62] ∧ last.uart.txBuffer.stored = [0x63] ∧
      last.main = .outside ∧ last.handler = .idle ∧ last.enabled = false ∧ ¬NotStranded last := by
  refine ⟨_, rfl, rfl, by decide, rfl, rfl, rfl, fun served => ?_⟩
  rcases served (by decide) not_false with enabled | running
  · cases enabled
  · exact running rfl

end Atalanta.SmokeTests
