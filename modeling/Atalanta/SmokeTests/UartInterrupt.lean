import Atalanta.SmokeTests.CircularBuffer
import Atalanta.SmokeTests.PatternBuffer

/-! The interrupt handler of `uart_interrupt.h` and the receive ring that it fills. -/

namespace Atalanta.SmokeTests

-- `stored` is how many elements the ring held when the byte was pushed
structure RxPush where
  data : Byte
  stored : Nat
deriving DecidableEq

/-- The globals of the handler with the interrupt enable register and what was written to the
transmit holding register. `rxPushed` records every push to the receive ring. -/
structure UartState where
  txBuffer : CircularBuffer
  rxCircBuffer : CircularBuffer
  checkpatternPattBuf : PatternBuffer
  payloadPattBuf : PatternBuffer
  interruptEnable : Byte
  transmitted : List Byte
  rxPushed : List RxPush

def uartBufferSize : Byte := 30
def uartRxBufferCapacity : Byte := 50

def staticPattern (pattern : List Byte) : PatternBuffer where
  buffer := some fun _ => 0
  len := BitVec.ofNat 8 pattern.length
  head := 0
  tail := pattern.length - 1
  pattern index := pattern.getD index.toNat 0
  payload := 0
  dataCount := 0

-- "BUHCOS" and "CBA"
def checkpattern : List Byte := [0x42, 0x55, 0x48, 0x43, 0x4F, 0x53]
def payloadPattern : List Byte := [0x43, 0x42, 0x41]

def UartState.initial : UartState where
  txBuffer := circularBufferInit (some fun _ => 0) uartBufferSize
  rxCircBuffer := circularBufferInit (some fun _ => 0) uartRxBufferCapacity
  checkpatternPattBuf := staticPattern checkpattern
  payloadPattBuf := staticPattern payloadPattern
  interruptEnable := 0
  transmitted := []
  rxPushed := []

def UartState.rxPush (uart : UartState) (data : Byte) : UartState :=
  { uart with
    rxCircBuffer := circularBufferPush uart.rxCircBuffer data
    rxPushed := uart.rxPushed ++ [⟨data, uart.rxCircBuffer.stored.length⟩] }

def getUartIntId (interruptIdent : Byte) : Byte := (interruptIdent &&& 0b00001110) >>> 1

def startTx (uart : UartState) : Option UartState :=
  if circularBufferEmpty uart.txBuffer then some uart
  else (circularBufferPop uart.txBuffer).map fun (data, txBuffer) =>
    { uart with txBuffer := txBuffer, transmitted := uart.transmitted ++ [data] }

def disableInterrupts (uart : UartState) : UartState := { uart with interruptEnable := 0 }

def sendQueued (uart : UartState) : Option UartState :=
  if circularBufferEmpty uart.txBuffer then some uart else startTx uart

/-- What the registers read in one round of the receive loop; the second reading of the
identification register is used when the first one is not 2. -/
structure RxRound where
  ident : Byte
  identAgain : Byte
  rbr : Byte

def RxRound.received (rx : RxRound) : Bool :=
  getUartIntId rx.ident == 2 || getUartIntId rx.identAgain == 6

-- the state in which `pattern_buffer_check_pattern` is called
def takeByte (data : Byte) (uart : UartState) : UartState :=
  { uart.rxPush data with
    checkpatternPattBuf := patternBufferPush uart.checkpatternPattBuf data }

def storeMatched (data : Byte) (uart : UartState) : Option UartState :=
  (patternBufferResetBuffer uart.checkpatternPattBuf).map fun cleared =>
    { uart.rxPush data with
      payloadPattBuf := patternBufferPush uart.payloadPattBuf uart.checkpatternPattBuf.payload
      checkpatternPattBuf := cleared }

def receiveByte (data : Byte) (uart : UartState) : Option UartState :=
  let uart := takeByte data uart
  (patternBufferCheckPattern uart.checkpatternPattBuf).bind fun matched =>
    if matched then storeMatched data uart else some uart

def UartState.loops (rx : RxRound) (uart : UartState) : Bool :=
  !circularBufferFull uart.rxCircBuffer && rx.received

def receiveLoop : List RxRound → UartState → Option UartState
  | [], uart => some uart
  | rx :: rounds, uart =>
      if uart.loops rx then (receiveByte rx.rbr uart).bind (receiveLoop rounds) else some uart

def uartHandler (interruptIdent : Byte) (rounds : List RxRound) (uart : UartState) :
    Option UartState :=
  if getUartIntId interruptIdent = 1 then sendQueued (disableInterrupts uart)
  else receiveLoop rounds uart

/-! Receiving: the handler runs round by round, the main program pops between its runs. -/

structure Receiver where
  uart : UartState
  inLoop : Bool
  popped : List Byte

inductive ReceiverEvent
  | interrupt (interruptIdent : Byte)
  | round (rx : RxRound)
  | pop

def Receiver.initial : Receiver := ⟨.initial, false, []⟩

def Receiver.enter (interruptIdent : Byte) (state : Receiver) : Option Receiver :=
  if getUartIntId interruptIdent = 1 then
    (sendQueued (disableInterrupts state.uart)).map fun uart => { state with uart := uart }
  else some { state with inLoop := true }

def Receiver.round (rx : RxRound) (state : Receiver) : Option Receiver :=
  if state.uart.loops rx then
    (receiveByte rx.rbr state.uart).map fun uart => { state with uart := uart }
  else some { state with inLoop := false }

def Receiver.pop (state : Receiver) : Option Receiver :=
  if circularBufferEmpty state.uart.rxCircBuffer then some state
  else (circularBufferPop state.uart.rxCircBuffer).map fun (data, rxCircBuffer) =>
    { state with
      uart := { state.uart with rxCircBuffer := rxCircBuffer }
      popped := state.popped ++ [data] }

-- an event of the party that does not run has no effect
def Receiver.step (event : ReceiverEvent) (state : Receiver) : Option Receiver :=
  match event, state.inLoop with
  | .interrupt interruptIdent, false => state.enter interruptIdent
  | .round rx, true => state.round rx
  | .pop, false => state.pop
  | _, _ => some state

theorem idle_rounds (popped : List Byte) (uart : UartState) (rounds : List RxRound) :
    Runs.run Receiver.step (rounds.map .round) ⟨uart, false, popped⟩ =
      some ⟨uart, false, popped⟩ := by
  induction rounds with
  | nil => rfl
  | cons rx rounds ih => exact ih

theorem loop_run (popped : List Byte) (rounds : List RxRound) :
    ∀ uart next, receiveLoop rounds uart = some next → ∃ inLoop,
      Runs.run Receiver.step (rounds.map .round) ⟨uart, true, popped⟩ =
        some ⟨next, inLoop, popped⟩ := by
  induction rounds with
  | nil =>
      intro uart next same
      cases same
      exact ⟨true, rfl⟩
  | cons rx rounds ih =>
      intro uart next loop
      rw [receiveLoop] at loop
      rw [List.map_cons, Runs.run]
      by_cases loops : uart.loops rx = true
      · rw [if_pos loops] at loop
        obtain ⟨middle, received, rest⟩ := Option.bind_eq_some_iff.mp loop
        obtain ⟨inLoop, ran⟩ := ih middle next rest
        refine ⟨inLoop, ?_⟩
        simp only [Receiver.step, Receiver.round, if_pos loops, received, Option.map_some,
          Option.bind_some, ran]
      · rw [if_neg loops] at loop
        cases loop
        refine ⟨false, ?_⟩
        simp only [Receiver.step, Receiver.round, if_neg loops, Option.bind_some]
        exact idle_rounds popped uart rounds

/-- The events of one run of the handler do what `uart_handler` does. -/
theorem handler_run {interruptIdent : Byte} {rounds : List RxRound} {uart next : UartState}
    (popped : List Byte) (ran : uartHandler interruptIdent rounds uart = some next) :
    ∃ inLoop, Runs.run Receiver.step (.interrupt interruptIdent :: rounds.map .round)
      ⟨uart, false, popped⟩ = some ⟨next, inLoop, popped⟩ := by
  rw [uartHandler] at ran
  rw [Runs.run]
  by_cases transmits : getUartIntId interruptIdent = 1
  · rw [if_pos transmits] at ran
    refine ⟨false, ?_⟩
    simp only [Receiver.step, Receiver.enter, if_pos transmits, ran, Option.map_some,
      Option.bind_some]
    exact idle_rounds popped next rounds
  · rw [if_neg transmits] at ran
    obtain ⟨inLoop, looped⟩ := loop_run popped rounds uart next ran
    refine ⟨inLoop, ?_⟩
    simp only [Receiver.step, Receiver.enter, if_neg transmits, Option.bind_some, looped]

structure RxFirstInFirstOut (state : Receiver) : Prop where
  order : state.uart.rxPushed.map RxPush.data = state.popped ++ state.uart.rxCircBuffer.stored
  room : ∀ push ∈ state.uart.rxPushed, push.stored ≠ uartRxBufferCapacity.toNat - 1

def Completes (data : Byte) (uart : UartState) : Prop :=
  patternBufferCheckPattern (takeByte data uart).checkpatternPattBuf = some true

/-- A byte that completes the check pattern is read while two slots are free. -/
def MatchSpared (event : ReceiverEvent) (state : Receiver) : Prop :=
  match event, state.inLoop with
  | .round rx, true => state.uart.loops rx = true → Completes rx.rbr state.uart →
      circularBufferFull (takeByte rx.rbr state.uart).rxCircBuffer = false
  | _, _ => True

structure UartState.Ready (uart : UartState) : Prop where
  tx : uart.txBuffer.buffer ≠ none
  rx : uart.rxCircBuffer.size = uartRxBufferCapacity
  pattern : uart.checkpatternPattBuf.buffer ≠ none

structure RxAccount (lost : Nat) (queue : List Byte) (state : Receiver) : Prop where
  ready : state.uart.Ready
  represents : Represents state.uart.rxCircBuffer queue
  total : state.uart.rxPushed.length =
    state.popped.length + queue.length + lost * uartRxBufferCapacity.toNat
  order : lost = 0 → state.uart.rxPushed.map RxPush.data = state.popped ++ queue ∧
    ∀ push ∈ state.uart.rxPushed, push.stored ≠ uartRxBufferCapacity.toNat - 1

section Receive

variable {uart : UartState} {queue : List Byte}

theorem patternBufferPush_buffer (pb : PatternBuffer) (data : Byte) (known : pb.buffer ≠ none) :
    (patternBufferPush pb data).buffer ≠ none := by
  unfold patternBufferPush
  split
  · rename_i unknown
    exact absurd unknown known
  · exact Option.some_ne_none _

theorem sendQueued_some (known : uart.txBuffer.buffer ≠ none) :
    ∃ next, sendQueued uart = some next ∧ next.txBuffer.buffer ≠ none ∧
      next.rxCircBuffer = uart.rxCircBuffer ∧
      next.checkpatternPattBuf = uart.checkpatternPattBuf ∧ next.rxPushed = uart.rxPushed := by
  obtain ⟨cells, buffer⟩ := Option.ne_none_iff_exists'.mp known
  unfold sendQueued startTx
  split
  · exact ⟨uart, rfl, known, rfl, rfl, rfl⟩
  · simp only [circularBufferPop, circularBufferShow, buffer, Option.map_some]
    refine ⟨_, rfl, ?_, rfl, rfl, rfl⟩
    rw [wrapTail_buffer]
    exact known

theorem rxPush_log (represents : Represents uart.rxCircBuffer queue) (data : Byte) :
    (uart.rxPush data).rxPushed = uart.rxPushed ++ [⟨data, queue.length⟩] := by
  simp only [UartState.rxPush, represents.stored_eq]

theorem takeByte_ready (ready : uart.Ready) (data : Byte) : (takeByte data uart).Ready where
  tx := ready.tx
  rx := (push_size ..).trans ready.rx
  pattern := patternBufferPush_buffer uart.checkpatternPattBuf data ready.pattern

theorem checkPattern_some {pb : PatternBuffer} (known : pb.buffer ≠ none) :
    ∃ matched, patternBufferCheckPattern pb = some matched := by
  obtain ⟨cells, buffer⟩ := Option.ne_none_iff_exists'.mp known
  exact ⟨_, congrArg _ buffer⟩

theorem storeMatched_some (ready : uart.Ready) (data : Byte) :
    ∃ next, storeMatched data uart = some next ∧ next.Ready ∧
      next.rxCircBuffer = (uart.rxPush data).rxCircBuffer ∧
      next.rxPushed = (uart.rxPush data).rxPushed := by
  obtain ⟨cells, buffer⟩ := Option.ne_none_iff_exists'.mp ready.pattern
  exact ⟨_, congrArg _ (congrArg _ buffer), ⟨ready.tx, (push_size ..).trans ready.rx,
    Option.some_ne_none _⟩, rfl, rfl⟩

theorem receiveByte_cases (ready : uart.Ready) (data : Byte) :
    ∃ next, receiveByte data uart = some next ∧ next.Ready ∧
      ((¬Completes data uart ∧ next = takeByte data uart) ∨
        (Completes data uart ∧
          next.rxCircBuffer = ((takeByte data uart).rxPush data).rxCircBuffer ∧
          next.rxPushed = ((takeByte data uart).rxPush data).rxPushed)) := by
  have taken := takeByte_ready ready data
  obtain ⟨matched, found⟩ := checkPattern_some taken.pattern
  unfold Completes
  cases matched with
  | false =>
      refine ⟨takeByte data uart, ?_, taken, .inl ⟨?_, rfl⟩⟩
      · simp only [receiveByte, found, Option.bind_some, Bool.false_eq_true, if_false]
      · simp only [found, Option.some.injEq, Bool.false_eq_true, not_false_eq_true]
  | true =>
      obtain ⟨next, stored, kept, ring, log⟩ := storeMatched_some taken data
      refine ⟨next, ?_, kept, .inr ⟨found, ring, log⟩⟩
      simp only [receiveByte, found, Option.bind_some, if_true, stored]

end Receive

section Account

variable {lost : Nat} {queue : List Byte} {state : Receiver} {next : UartState}

theorem account_pushed (account : RxAccount lost queue state) (ready : next.Ready)
    {more : List RxPush} {data : List Byte} (bytes : more.map RxPush.data = data)
    (pushed : next.rxPushed = state.uart.rxPushed ++ more)
    (spare : ∀ push ∈ more, push.stored ≠ uartRxBufferCapacity.toNat - 1)
    (represents : Represents next.rxCircBuffer (queue ++ data)) (inLoop : Bool) :
    RxAccount lost (queue ++ data) ⟨next, inLoop, state.popped⟩ where
  ready := ready
  represents := represents
  total := by
    have length := congrArg List.length bytes
    have total := account.total
    rw [List.length_map] at length
    simp only [pushed, List.length_append]
    omega
  order none := by
    obtain ⟨order, room⟩ := account.order none
    refine ⟨?_, fun push inside => ?_⟩
    · simp only [pushed, List.map_append, order, bytes, List.append_assoc]
    · rcases List.mem_append.mp (pushed ▸ inside) with before | last
      · exact room push before
      · exact spare push last

theorem account_overrun (account : RxAccount lost queue state) (ready : next.Ready)
    {first second : RxPush} (pushed : next.rxPushed = state.uart.rxPushed ++ [first, second])
    (full : queue.length + 2 = uartRxBufferCapacity.toNat)
    (represents : Represents next.rxCircBuffer []) (inLoop : Bool) :
    RxAccount (lost + 1) [] ⟨next, inLoop, state.popped⟩ where
  ready := ready
  represents := represents
  total := by
    have total := account.total
    simp only [pushed, List.length_append, List.length_cons, List.length_nil, Nat.succ_mul]
    omega
  order none := absurd none (Nat.succ_ne_zero lost)

/-- The second push of a byte that completes the pattern. -/
theorem account_match {uart : UartState} {popped : List Byte}
    (account : RxAccount lost queue ⟨uart, true, popped⟩) (data : Byte)
    (once : (takeByte data uart).rxPushed = uart.rxPushed ++ [⟨data, queue.length⟩])
    (represents : Represents (takeByte data uart).rxCircBuffer (queue ++ [data]))
    (ready : next.Ready)
    (ring : next.rxCircBuffer = ((takeByte data uart).rxPush data).rxCircBuffer)
    (log : next.rxPushed = ((takeByte data uart).rxPush data).rxPushed) :
    (circularBufferFull (takeByte data uart).rxCircBuffer = false ∧
      RxAccount lost (queue ++ [data, data]) ⟨next, true, popped⟩) ∨
    (circularBufferFull (takeByte data uart).rxCircBuffer = true ∧
      RxAccount (lost + 1) [] ⟨next, true, popped⟩) := by
  have sized : (takeByte data uart).rxCircBuffer.size = uartRxBufferCapacity :=
    (takeByte_ready account.ready data).rx
  have length : (queue ++ [data]).length = queue.length + 1 := by simp
  have full := represents.full_iff
  have room := represents.length_lt
  have twice : next.rxPushed =
      uart.rxPushed ++ [⟨data, queue.length⟩, ⟨data, queue.length + 1⟩] := by
    rw [log, rxPush_log represents, once, length, List.append_assoc]
    rfl
  rw [sized, length] at full room
  cases fits : circularBufferFull (takeByte data uart).rxCircBuffer with
  | false =>
      rw [fits, Bool.false_eq_true, false_iff] at full
      have stored := represents.push (by rw [sized, length]; omega) data
      rw [List.append_assoc] at stored
      refine .inl ⟨rfl, account_pushed account ready rfl twice ?_ (ring ▸ stored) true⟩
      simp only [List.mem_cons, List.not_mem_nil, or_false]
      rintro push (rfl | rfl)
      · dsimp only
        omega
      · dsimp only
        omega
  | true =>
      have last := full.mp fits
      have emptied := represents.overrun (by rw [sized, length, last]) data
      exact .inr ⟨rfl, account_overrun account ready twice last (ring ▸ emptied) true⟩

/-- A round of the receive loop overruns the ring exactly when its byte completes the pattern
and takes the last free slot. -/
theorem account_round (account : RxAccount lost queue state) (inLoop : state.inLoop = true)
    (rx : RxRound) :
    ∃ after, state.round rx = some after ∧
      ((MatchSpared (.round rx) state ∧ ∃ queue, RxAccount lost queue after) ∨
        (¬MatchSpared (.round rx) state ∧ ∃ queue, RxAccount (lost + 1) queue after)) := by
  obtain ⟨uart, running, popped⟩ := state
  obtain rfl : running = true := inLoop
  by_cases loops : uart.loops rx = true
  · have ready : uart.Ready := account.ready
    have held : Represents uart.rxCircBuffer queue := account.represents
    have room := held.length_lt
    have space : queue.length + 1 < uart.rxCircBuffer.size.toNat := by
      have notFull := (Bool.and_eq_true_iff.mp loops).1
      rw [Bool.not_eq_true', ← Bool.not_eq_true, held.full_iff] at notFull
      omega
    have represents : Represents (takeByte rx.rbr uart).rxCircBuffer (queue ++ [rx.rbr]) :=
      held.push space rx.rbr
    have once : (takeByte rx.rbr uart).rxPushed = _ := rxPush_log held rx.rbr
    obtain ⟨next, received, kept, outcome⟩ := receiveByte_cases ready rx.rbr
    refine ⟨⟨next, true, popped⟩, ?_, ?_⟩
    · simp only [Receiver.round, if_pos loops, received, Option.map_some]
    · rcases outcome with ⟨other, rfl⟩ | ⟨completes, ring, log⟩
      · refine .inl ⟨fun _ completes => absurd completes other, _,
          account_pushed account kept rfl once ?_ represents true⟩
        rw [ready.rx] at space
        simp only [List.mem_singleton, forall_eq]
        omega
      · rcases account_match account rx.rbr once represents kept ring log with
          ⟨fits, stored⟩ | ⟨full, overrun⟩
        · exact .inl ⟨fun _ _ => fits, _, stored⟩
        · refine .inr ⟨fun spared => ?_, _, overrun⟩
          have fits := spared loops completes
          dsimp only at fits
          rw [full] at fits
          cases fits
  · refine ⟨⟨uart, false, popped⟩, if_neg loops, .inl ⟨fun runs => absurd runs loops, queue, ?_⟩⟩
    exact ⟨account.ready, account.represents, account.total, account.order⟩

theorem account_enter (account : RxAccount lost queue state) (interruptIdent : Byte) :
    ∃ after, state.enter interruptIdent = some after ∧ RxAccount lost queue after := by
  obtain ⟨⟨tx, rx, pattern⟩, represents, total, order⟩ := account
  unfold Receiver.enter
  split
  · have disabled : (disableInterrupts state.uart).txBuffer.buffer ≠ none := tx
    obtain ⟨next, sent, known, ring, check, log⟩ := sendQueued_some disabled
    rw [sent]
    refine ⟨_, rfl, ⟨known, ?_, ?_⟩, ?_, ?_, ?_⟩
    · rw [ring]
      exact rx
    · rw [check]
      exact pattern
    · rw [ring]
      exact represents
    · rw [log]
      exact total
    · rw [log]
      exact order
  · exact ⟨_, rfl, ⟨tx, rx, pattern⟩, represents, total, order⟩

theorem account_pop (account : RxAccount lost queue state) :
    ∃ after, state.pop = some after ∧ ∃ queue, RxAccount lost queue after := by
  have represents := account.represents
  cases queue with
  | nil =>
      have empty : circularBufferEmpty state.uart.rxCircBuffer = true :=
        represents.empty_iff.mpr rfl
      exact ⟨state, if_pos empty, [], account⟩
  | cons first rest =>
      have filled : ¬circularBufferEmpty state.uart.rxCircBuffer = true := by
        rw [represents.empty_iff]
        exact List.cons_ne_nil first rest
      obtain ⟨⟨tx, rx, pattern⟩, _, total, order⟩ := account
      rw [Receiver.pop, if_neg filled, represents.pop, Option.map_some]
      refine ⟨_, rfl, rest, ⟨tx, (wrapTail_size _).trans rx, pattern⟩, represents.advance, ?_,
        fun none => ?_⟩
      · simp only [List.length_cons, List.length_append, List.length_nil] at total ⊢
        omega
      · rw [List.append_assoc]
        exact order none

end Account

theorem account_step (lost : Nat) (event : ReceiverEvent) (state : Receiver)
    (account : ∃ queue, RxAccount lost queue state) :
    ∃ next, Receiver.step event state = some next ∧
      ((MatchSpared event state ∧ ∃ queue, RxAccount lost queue next) ∨
        (¬MatchSpared event state ∧
          ∃ more, 0 < more ∧ ∃ queue, RxAccount (lost + more) queue next)) := by
  obtain ⟨queue, account⟩ := account
  unfold Receiver.step MatchSpared
  cases event with
  | interrupt interruptIdent =>
      cases state.inLoop with
      | false =>
          obtain ⟨after, entered, kept⟩ := account_enter account interruptIdent
          exact ⟨after, entered, .inl ⟨trivial, queue, kept⟩⟩
      | true => exact ⟨state, rfl, .inl ⟨trivial, queue, account⟩⟩
  | round rx =>
      cases inLoop : state.inLoop with
      | false => exact ⟨state, rfl, .inl ⟨trivial, queue, account⟩⟩
      | true =>
          obtain ⟨after, looped, outcome⟩ := account_round account inLoop rx
          simp only [MatchSpared, inLoop] at outcome
          exact ⟨after, looped, outcome.imp_right fun overrun => ⟨overrun.1, 1, Nat.one_pos,
            overrun.2⟩⟩
  | pop =>
      cases state.inLoop with
      | false =>
          obtain ⟨after, popped, kept⟩ := account_pop account
          exact ⟨after, popped, .inl ⟨trivial, kept⟩⟩
      | true => exact ⟨state, rfl, .inl ⟨trivial, queue, account⟩⟩

theorem account_initial : ∃ queue, RxAccount 0 queue .initial :=
  ⟨[], ⟨Option.some_ne_none _, rfl, Option.some_ne_none _⟩,
    init_represents _ (by decide), rfl, fun _ => ⟨rfl, fun _ inside => by cases inside⟩⟩

/-- The receive ring stays a queue in exactly the runs in which no byte completes the check
pattern while it takes the last free slot. -/
theorem uartHandler_fifo_iff (events : List ReceiverEvent) :
    ∃ last, Runs.run Receiver.step events .initial = some last ∧
      (RxFirstInFirstOut last ↔ Runs.Along Receiver.step MatchSpared events .initial) := by
  obtain ⟨last, more, ran, ⟨queue, account⟩, along⟩ :=
    Runs.run_losses account_step events 0 _ account_initial
  refine ⟨last, ran, ?_⟩
  have represents := account.represents
  have total := account.total
  rw [← along]
  constructor
  · intro kept
    have length := congrArg List.length kept.order
    rw [represents.stored_eq, List.length_map, List.length_append] at length
    have nothing : more * uartRxBufferCapacity.toNat = 0 := by
      rw [Nat.zero_add] at total
      omega
    rcases Nat.mul_eq_zero.mp nothing with none | empty
    · exact none
    · cases empty
  · intro none
    obtain ⟨order, room⟩ := account.order (by omega)
    exact ⟨by rw [represents.stored_eq, order], room⟩

def received (data : List Byte) : List ReceiverEvent :=
  .interrupt 0x04 :: data.map fun byte => .round ⟨0x04, 0, byte⟩

/-- 48 elements are stored when the last byte of "SOCHUB" is read: the ring is empty after it. -/
theorem uartHandler_overruns :
    ∃ last, Runs.run Receiver.step
        (received (List.replicate 43 0 ++ [0x53, 0x4F, 0x43, 0x48, 0x55, 0x42])) .initial =
        some last ∧
      ¬RxFirstInFirstOut last := by
  have sizes : (Runs.run Receiver.step
      (received (List.replicate 43 0 ++ [0x53, 0x4F, 0x43, 0x48, 0x55, 0x42])) .initial).map
        (fun last => (last.uart.rxPushed.length, last.popped.length,
          last.uart.rxCircBuffer.stored.length)) = some (50, 0, 0) := by
    decide +kernel
  obtain ⟨last, ran, lengths⟩ := Option.map_eq_some_iff.mp sizes
  refine ⟨last, ran, fun kept => ?_⟩
  have length := congrArg List.length kept.order
  simp only [List.length_map, List.length_append] at length
  simp only [Prod.mk.injEq] at lengths
  omega

end Atalanta.SmokeTests
