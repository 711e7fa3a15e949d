import Atalanta.Bsp.UartInit
import Atalanta.Bsp.UartListen
import Atalanta.Library.Transcript

/-! The blocking character functions of `uart.rs`, and the text that `mock_uart` prints for a whole
session of calls. -/

namespace Atalanta.Bsp

open BusProgram Clocked RtPeripherals

def uartLsrOfs : BitVec 32 := 20
def uartLsrRxFifoValidBit : BitVec 8 := 0b1

namespace ApbUartHal

variable (base : BitVec 32)

def isTransmitEmpty : Driver Bool := do
  let lsr ← readU8 (base + uartLsrOfs)
  return (lsr &&& 0x20) != 0

/-! A loop that waits for the hardware is given the number of its polls, and says whether it has
ended by then. -/

def waitTransmitEmpty : (polls : Nat) → Driver Bool
  | 0 => return false
  | polls + 1 => do
    if ← isTransmitEmpty base then return true
    else waitTransmitEmpty polls

variable (polls : Nat)

def putc (c : BitVec 8) : Driver Bool := do
  if ← waitTransmitEmpty base polls then
    writeU8 (base + uartRbrThrDllOfs) c
    return true
  else return false

def write : List (BitVec 8) → Driver Bool
  | [] => return true
  | b :: buf => do
    if ← putc base polls b then write buf
    else return false

def flush : Driver Bool := waitTransmitEmpty base polls

def getc : (polls : Nat) → Driver (Option (BitVec 8))
  | 0 => return none
  | polls + 1 => do
    let lsr ← readU8 (base + uartLsrOfs)
    if lsr &&& uartLsrRxFifoValidBit = 0 then getc polls
    else
      let c ← readU8 base
      return some c

end ApbUartHal

inductive UartCall
  | write (buf : List (BitVec 8))
  | flush
  | getc
  | listen (int : UartInterrupt)
deriving DecidableEq, Repr

def UartCall.run (base : BitVec 32) (polls : Nat) : UartCall → Driver Bool
  | .write buf => ApbUartHal.write base polls buf
  | .flush => ApbUartHal.flush base polls
  | .getc => do
    let c ← ApbUartHal.getc base polls
    return c.isSome
  | .listen int => do
    ApbUartHal.listen base int
    return true

def UartCall.runAll (base : BitVec 32) (polls : Nat) : List UartCall → Driver Bool
  | [] => return true
  | call :: calls => do
    if ← call.run base polls then UartCall.runAll base polls calls
    else return false

def UartCall.runInitialised (base : BitVec 32) (polls : Nat) (calls : List UartCall) :
    Except Panic Unit → Driver (Except Panic Bool)
  | .error panic => return .error panic
  | .ok () => do
    let returned ← UartCall.runAll base polls calls
    return .ok returned

/-- The calls of a program that has set up the UART first. -/
def uartSession (base freq baud : BitVec 32) (polls : Nat) (calls : List UartCall) :
    Driver (Except Panic Bool) := do
  let initialised ← ApbUartHal.init base freq baud
  UartCall.runInitialised base polls calls initialised

-- the session behind the division, on the UART alone
def uartSessionWith (base : BitVec 32) (polls : Nat) (calls : List UartCall)
    (divisor : Except Panic (BitVec 32)) : Driver (Except Panic Bool) := do
  let initialised ← ApbUartHal.initWith base divisor
  UartCall.runInitialised base polls calls initialised

theorem uartSession_eq (base freq baud : BitVec 32) (polls : Nat) (calls : List UartCall) :
    uartSession base freq baud polls calls = pclkDiv.bind fun periphClkDiv =>
      uartSessionWith base polls calls
        ((checkedDiv freq (periphClkDiv.setWidth 32)).bind (checkedDiv · (baud <<< 4))) := rfl

theorem divisor_panics_iff (freq baud : BitVec 32) (div : BitVec 4) :
    (checkedDiv freq ((div.setWidth 8).setWidth 32)).bind (checkedDiv · (baud <<< 4)) =
      if div = 0 ∨ baud <<< 4 = 0 then .error .divisionByZero
      else .ok (freq / (div.setWidth 8).setWidth 32 / baud <<< 4) := by
  by_cases zero : div = 0
  · rw [zero, if_pos (.inl rfl)]
    rfl
  · have nonzero : (div.setWidth 8).setWidth 32 ≠ 0 := by
      intro widened
      refine zero (BitVec.eq_of_toNat_eq ?_)
      rw [← widened_toNat (by decide : 8 ≤ 32) div, widened]
      rfl
    rw [checkedDiv_of_ne freq nonzero]
    change checkedDiv _ _ = _
    by_cases shifted : baud <<< 4 = 0
    · rw [if_pos (.inr shifted)]
      exact if_pos shifted
    · rw [if_neg (not_or.mpr ⟨zero, shifted⟩)]
      exact checkedDiv_of_ne _ shifted

/-! What is printed -/

def uartTx (demux : ApbDemux) (state : State) (input : Input) : Option (BitVec 8) :=
  (MockUart.out state.uart (apbOut demux input.apb 1#3)).tx

def sends (state : MockUart.State) (addr data : BitVec 32) : Option (BitVec 8) :=
  if decide (MockUart.register ((addr >>> 2).setWidth 3) = .thr) && !state.dlab then
    some (data.extractLsb' 0 8)
  else none

theorem uart_emits {demux : ApbDemux} (documented : demux.Documented) :
    Emits periphBus (UartQuiet demux) (fun addr => decode addr.toNat = 1#3) State.uart
      (uartTx demux) sends where
  read state step addr port reads := by
    obtain ⟨_, _, reading, rfl⟩ := reads
    rw [uartTx, apbOut_selected documented port, MockUart.out, MockUart.writes, reading]
    simp
  write state step addr data port writes := by
    have routed : apbOut demux step.apb 1#3 = .write addr data := by
      rw [show step.apb = _ from writes]
      exact apbOut_selected documented port
    rw [uartTx, routed]
    rfl
  silent state step quiet := by
    rw [uartTx, MockUart.out, show MockUart.writes _ = _ from quiet]
    simp

-- with DLAB set the characters go to the divisor latch
def typed (state : MockUart.State) (buf : List (BitVec 8)) : MockUart.State :=
  if state.dlab then { state with dll := buf.getLastD state.dll } else state

theorem typed_nil (state : MockUart.State) : typed state [] = state := by
  unfold typed
  split <;> rfl

theorem typed_lcr (state : MockUart.State) (buf : List (BitVec 8)) :
    (typed state buf).lcr = state.lcr := by
  unfold typed
  split <;> rfl

theorem typed_cons (state : MockUart.State) (c : BitVec 8) (buf : List (BitVec 8)) :
    typed (typed state [c]) buf = typed state (c :: buf) := by
  unfold typed
  cases banked : state.dlab with
  | false => simp [banked]
  | true =>
      have kept : ({ state with dll := c } : MockUart.State).dlab = true := banked
      simp only [if_true, List.getLastD_cons, List.getLastD_nil, kept]

theorem no_data_iff {state : MockUart.State} :
    (MockUart.load state .lsr).setWidth 8 &&& uartLsrRxFifoValidBit = 0 ↔
      state.lsr.getLsbD 0 = false := by
  have valid : ((MockUart.load state .lsr).setWidth 8 &&& uartLsrRxFifoValidBit).getLsbD 0 =
      state.lsr.getLsbD 0 := by
    simp [MockUart.load, MockUart.thre, MockUart.temt, uartLsrRxFifoValidBit,
      BitVec.getElem_signExtend]
  rw [← valid]
  refine ⟨fun zero => by rw [zero]; rfl, fun low => ?_⟩
  apply BitVec.eq_of_getLsbD_eq
  intro bit within
  cases bit with
  | zero => exact low
  | succ bit => simp [uartLsrRxFifoValidBit]

def UartCall.text : UartCall → List (BitVec 8)
  | .write buf => buf
  | .flush => []
  | .getc => []
  | .listen _ => []

def UartCall.after (state : MockUart.State) : UartCall → MockUart.State
  | .write buf => typed state buf
  | .flush => state
  | .getc => state
  | .listen int => banked state int

/-- Reads of characters return only where the line status says that there is one. -/
def UartCall.returns (state : MockUart.State) (call : UartCall) : Bool :=
  state.lsr.getLsbD 0 || decide (call ≠ .getc)

/-- The calls up to the first that does not return. -/
def returning (state : MockUart.State) (calls : List UartCall) : List UartCall :=
  calls.takeWhile (UartCall.returns state)

/-- No call touches the line settings or the line status. -/
theorem UartCall.after_line (call : UartCall) (state : MockUart.State) :
    (call.after state).lcr = state.lcr ∧ (call.after state).lsr = state.lsr := by
  cases call with
  | write buf =>
      unfold after typed
      simp only
      split <;> exact ⟨rfl, rfl⟩
  | flush => exact ⟨rfl, rfl⟩
  | getc => exact ⟨rfl, rfl⟩
  | listen int =>
      unfold after banked
      simp only
      split <;> exact ⟨rfl, rfl⟩

theorem returns_after (call : UartCall) (state : MockUart.State) :
    UartCall.returns (call.after state) = UartCall.returns state := by
  funext other
  rw [UartCall.returns, (call.after_line state).2, UartCall.returns]

theorem foldl_line (calls : List UartCall) (state : MockUart.State) :
    (calls.foldl UartCall.after state).lcr = state.lcr := by
  induction calls generalizing state with
  | nil => rfl
  | cons call calls ih => exact (ih _).trans (call.after_line state).1

section Console

variable {base : BitVec 32} (uart : UartAt base)

include uart

theorem sends_of_index {ofs : BitVec 32} (inside : ofs.toNat < 32)
    (other : MockUart.register ((ofs >>> 2).setWidth 3) ≠ .thr) (state : MockUart.State)
    (data : BitVec 32) : sends state (base + ofs) data = none := by
  rw [sends, uart.index inside, decide_eq_false other]
  rfl

theorem sends_thr (state : MockUart.State) (c : BitVec 8) :
    sends state (base + uartRbrThrDllOfs) (c.setWidth 32) =
      if state.dlab then none else some c := by
  rw [sends, uart.index (by decide), byte_widened]
  cases state.dlab with
  | true => rfl
  | false => rfl

/-! Waiting -/

theorem transmit_empty (state : MockUart.State) :
    (ApbUartHal.isTransmitEmpty base).exec uartDevice state = (true, state) := by
  have read : uartDevice.read state (base + uartLsrOfs) = (MockUart.load state .lsr, state) :=
    uart_read uart (by decide) state
  have empty : (MockUart.load state .lsr).setWidth 8 &&& 0x20#8 ≠ 0 := by
    intro none
    have bit := congrArg (fun byte : BitVec 8 => byte.getLsbD 5) none
    simp [MockUart.load, MockUart.thre, MockUart.temt] at bit
  change (((uartDevice.read state (base + uartLsrOfs)).1.setWidth 8 &&& 0x20#8) != 0, _) = _
  rw [read, bne_iff_ne.mpr empty]

theorem exec_waitTransmitEmpty (polls : Nat) (state : MockUart.State) :
    (ApbUartHal.waitTransmitEmpty base polls).exec uartDevice state =
      (decide (0 < polls), state) := by
  cases polls with
  | zero => rfl
  | succ polls =>
      rw [ApbUartHal.waitTransmitEmpty, exec_bind_of _ (transmit_empty uart state)]
      rfl

theorem emitted_waitTransmitEmpty (polls : Nat) (state : MockUart.State) :
    (ApbUartHal.waitTransmitEmpty base polls).emitted uartDevice sends state = [] := by
  cases polls with
  | zero => rfl
  | succ polls =>
      rw [ApbUartHal.waitTransmitEmpty, emitted_bind_of _ _ (transmit_empty uart state) rfl]
      rfl

/-! Characters -/

theorem exec_putc {polls : Nat} (some : 0 < polls) (c : BitVec 8) (state : MockUart.State) :
    (ApbUartHal.putc base polls c).exec uartDevice state = (true, typed state [c]) := by
  have stored : uartDevice.write state (base + uartRbrThrDllOfs) (c.setWidth 32) =
      typed state [c] := by
    rw [uart_write uart (by decide)]
    change MockUart.store state .thr (c.setWidth 32) = _
    simp only [MockUart.store, byte_widened, typed, List.getLastD_cons, List.getLastD_nil]
  rw [ApbUartHal.putc, exec_bind_of _ (exec_waitTransmitEmpty uart polls state),
    decide_eq_true some]
  exact congrArg (Prod.mk true) stored

theorem emitted_putc {polls : Nat} (some : 0 < polls) (c : BitVec 8) (state : MockUart.State) :
    (ApbUartHal.putc base polls c).emitted uartDevice sends state =
      if state.dlab then [] else [c] := by
  rw [ApbUartHal.putc, emitted_bind_of _ _ (exec_waitTransmitEmpty uart polls state)
    (emitted_waitTransmitEmpty uart polls state), decide_eq_true some]
  change (sends state (base + uartRbrThrDllOfs) (c.setWidth 32)).toList ++ [] = _
  rw [sends_thr uart, List.append_nil]
  split <;> rfl

theorem exec_write {polls : Nat} (some : 0 < polls) (buf : List (BitVec 8))
    (state : MockUart.State) :
    (ApbUartHal.write base polls buf).exec uartDevice state = (true, typed state buf) := by
  induction buf generalizing state with
  | nil => exact congrArg (Prod.mk true) (typed_nil state).symm
  | cons c buf ih =>
      rw [ApbUartHal.write, exec_bind_of _ (exec_putc uart some c state), if_pos rfl, ih,
        typed_cons]

theorem emitted_write {polls : Nat} (some : 0 < polls) (buf : List (BitVec 8))
    (state : MockUart.State) :
    (ApbUartHal.write base polls buf).emitted uartDevice sends state =
      if state.dlab then [] else buf := by
  induction buf generalizing state with
  | nil => exact (ite_self _).symm
  | cons c buf ih =>
      have kept : (typed state [c]).dlab = state.dlab := by
        rw [MockUart.State.dlab, typed_lcr, MockUart.State.dlab]
      rw [ApbUartHal.write, emitted_bind_of _ _ (exec_putc uart some c state)
        (emitted_putc uart some c state), if_pos rfl, ih, kept]
      cases state.dlab with
      | true => rfl
      | false => rfl

theorem exec_readU8_lsr (state : MockUart.State) :
    (readU8 (base + uartLsrOfs)).exec uartDevice state =
      ((MockUart.load state .lsr).setWidth 8, state) := by
  have read : uartDevice.read state (base + uartLsrOfs) = (MockUart.load state .lsr, state) :=
    uart_read uart (by decide) state
  exact congrArg (fun answer => (BitVec.setWidth 8 answer.1, answer.2)) read

theorem exec_readU8_rbr (state : MockUart.State) :
    (readU8 base).exec uartDevice state = (if state.dlab then state.dll else 0, state) := by
  have read : uartDevice.read state base = (MockUart.load state .thr, state) := by
    have aligned := uart_read uart (show (0#32).toNat < 32 by decide) state
    rw [BitVec.add_zero] at aligned
    exact aligned
  refine (congrArg (fun answer => (BitVec.setWidth 8 answer.1, answer.2)) read).trans ?_
  simp only [MockUart.load]
  split
  · rw [widened_byte]
  · rfl

/-- The receiver of `mock_uart` is what was written to its line status: without the lowest bit of it
a read never returns, with it one poll is enough. -/
theorem exec_getc {polls : Nat} (some : 0 < polls) (state : MockUart.State) :
    (ApbUartHal.getc base polls).exec uartDevice state =
      (if state.lsr.getLsbD 0 then Option.some (if state.dlab then state.dll else 0) else none,
        state) := by
  induction polls with
  | zero => omega
  | succ polls ih =>
      rw [ApbUartHal.getc, exec_bind_of _ (exec_readU8_lsr uart state)]
      cases valid : state.lsr.getLsbD 0 with
      | false =>
          rw [if_pos (no_data_iff.mpr valid)]
          cases polls with
          | zero => rfl
          | succ polls =>
              rw [ih (by omega), valid]
      | true =>
          have data := mt no_data_iff.mp (by rw [valid]; decide)
          rw [if_neg data, exec_bind_of _ (exec_readU8_rbr uart state), if_pos rfl]
          rfl

/-! Sessions -/

theorem emitted_latch {state : MockUart.State} (dlab : state.dlab = true) (val : BitVec 8) :
    (writeU8 (base + uartDlabLsbOfs) val).emitted uartDevice sends state = [] := by
  refine (emitted_writeWord _ _ _ _ _).trans ?_
  change (sends state (base + uartRbrThrDllOfs) _).toList = _
  rw [sends_thr uart, dlab]
  rfl

theorem sends_ier (data : BitVec 32) (state : MockUart.State) :
    sends state (base + uartIerDlmOfs) data = none :=
  sends_of_index uart (by decide) (by decide) state data

theorem sends_lcr (data : BitVec 32) (state : MockUart.State) :
    sends state (base + uartLcrOfs) data = none :=
  sends_of_index uart (by decide) (by decide) state data

theorem emitted_listen (int : UartInterrupt) (state : MockUart.State) :
    (ApbUartHal.listen base int).emitted uartDevice sends state = [] := by
  have silent : (ApbUartHal.listen base int).OnlyWrites fun addr data =>
      ∀ state, sends state addr data = none :=
    fun _ => And.intro (sends_lcr uart _) (And.intro (sends_ier uart _)
      (And.intro (sends_lcr uart _) trivial))
  exact emitted_silent silent state

/-- All writes of the setup are to other registers, but for the one to the divisor latch. -/
theorem emitted_configure (divisor : BitVec 32) (state : MockUart.State) :
    (ApbUartHal.configure base divisor).emitted uartDevice sends state = [] := by
  obtain ⟨first, stored⟩ : ∃ first,
      MockUart.store state .ier ((0x00#8).setWidth 32) = first := ⟨_, rfl⟩
  have quieted : (writeU8 (base + uartIerDlmOfs) 0x00).exec uartDevice state = ((), first) :=
    (exec_writeU8 uart (by decide) _ state).trans (congrArg (Prod.mk ()) stored)
  have ier : (writeU8 (base + uartIerDlmOfs) 0x00).emitted uartDevice sends state = [] := by
    refine (emitted_writeWord _ _ _ _ _).trans ?_
    rw [sends_ier uart]
    rfl
  have lcr : (maskU8 (base + uartLcrOfs) 0x80).emitted uartDevice sends first = [] := by
    refine (emitted_writeWord _ _ _ _ _).trans ?_
    rw [sends_lcr uart]
    rfl
  have fcr (data : BitVec 32) (state : MockUart.State) :
      sends state (base + uartIirFcrOfs) data = none :=
    sends_of_index uart (by decide) (by decide) state data
  have mcr (data : BitVec 32) (state : MockUart.State) :
      sends state (base + uartMcrOfs) data = none :=
    sends_of_index uart (by decide) (by decide) state data
  have dlab := masked_dlab first
  unfold ApbUartHal.configure
  rw [emitted_bind_of _ _ quieted ier, emitted_bind_of _ _ (exec_maskU8_lcr uart _ first) lcr,
    emitted_bind_of _ _ (exec_dll uart dlab _) (emitted_latch uart dlab _)]
  refine emitted_silent (?_ : Program.OnlyWrites _ _) _
  exact And.intro (sends_ier uart _) (And.intro (sends_lcr uart _) fun _ =>
    And.intro (sends_lcr uart _) (And.intro (fcr _) (And.intro (mcr _) trivial)))

theorem exec_call {polls : Nat} (some : 0 < polls) (call : UartCall) (state : MockUart.State) :
    (call.run base polls).exec uartDevice state =
      (call.returns state, if call.returns state then call.after state else state) := by
  cases call with
  | write buf =>
      have returns : UartCall.returns state (.write buf) = true := by simp [UartCall.returns]
      rw [returns]
      exact exec_write uart some buf state
  | flush =>
      have returns : UartCall.returns state .flush = true := by simp [UartCall.returns]
      rw [returns]
      refine (exec_waitTransmitEmpty uart polls state).trans ?_
      rw [decide_eq_true some]
      rfl
  | getc =>
      have returns : UartCall.returns state .getc = state.lsr.getLsbD 0 := by
        simp [UartCall.returns]
      rw [UartCall.run, exec_bind_of _ (exec_getc uart some state), returns]
      cases state.lsr.getLsbD 0 <;> rfl
  | listen int =>
      have returns : UartCall.returns state (.listen int) = true := by simp [UartCall.returns]
      rw [returns]
      exact exec_bind_of _ (exec_listen uart int state)

theorem emitted_getc (polls : Nat) (state : MockUart.State) :
    (ApbUartHal.getc base polls).emitted uartDevice sends state = [] := by
  induction polls with
  | zero => rfl
  | succ polls ih =>
      rw [ApbUartHal.getc, emitted_bind_of _ _ (exec_readU8_lsr uart state) rfl]
      split
      · exact ih
      · rfl

theorem emitted_call {polls : Nat} (some : 0 < polls) (call : UartCall) {state : MockUart.State}
    (visible : state.dlab = false) :
    (call.run base polls).emitted uartDevice sends state = call.text := by
  cases call with
  | write buf =>
      refine (emitted_write uart some buf state).trans ?_
      rw [visible]
      rfl
  | flush => exact emitted_waitTransmitEmpty uart polls state
  | getc =>
      rw [UartCall.run, emitted_bind_of _ _ (exec_getc uart some state)
        (emitted_getc uart polls state)]
      rfl
  | listen int =>
      rw [UartCall.run, emitted_bind_of _ _ (exec_listen uart int state)
        (emitted_listen uart int state)]
      rfl

theorem exec_runAll {polls : Nat} (some : 0 < polls) (calls : List UartCall)
    (state : MockUart.State) :
    (UartCall.runAll base polls calls).exec uartDevice state =
      (calls.all (UartCall.returns state), (returning state calls).foldl UartCall.after state) := by
  induction calls generalizing state with
  | nil => rfl
  | cons call calls ih =>
      rw [UartCall.runAll, exec_bind_of _ (exec_call uart some call state), List.all_cons,
        returning, List.takeWhile_cons]
      cases returns : call.returns state with
      | false => rfl
      | true =>
          rw [if_pos rfl, if_pos rfl, ih, returns_after, returning, returns_after]
          rfl

theorem emitted_runAll {polls : Nat} (some : 0 < polls) (calls : List UartCall)
    {state : MockUart.State} (visible : state.dlab = false) :
    (UartCall.runAll base polls calls).emitted uartDevice sends state =
      (returning state calls).flatMap UartCall.text := by
  induction calls generalizing state with
  | nil => rfl
  | cons call calls ih =>
      rw [UartCall.runAll, emitted_bind_of _ _ (exec_call uart some call state)
        (emitted_call uart some call visible), returning, List.takeWhile_cons]
      cases returns : call.returns state with
      | false =>
          have reads : call = .getc := by
            simp only [UartCall.returns, Bool.or_eq_false_iff, decide_eq_false_iff_not,
              Decidable.not_not] at returns
            exact returns.2
          rw [reads]
          rfl
      | true =>
          have still : (call.after state).dlab = false := by
            rw [MockUart.State.dlab, (call.after_line state).1]
            exact visible
          rw [if_pos rfl, if_pos rfl, if_pos rfl, ih still, returning, returns_after,
            List.flatMap_cons]

theorem exec_session {polls : Nat} (some : 0 < polls) (calls : List UartCall)
    (divisor : BitVec 32) (state : MockUart.State) :
    (uartSessionWith base polls calls (.ok divisor)).exec uartDevice state =
      (.ok (calls.all (UartCall.returns state)),
        (returning state calls).foldl UartCall.after (configured state divisor)) := by
  rw [uartSessionWith, exec_bind_of _ (exec_initWith uart divisor state), UartCall.runInitialised,
    exec_bind_of _ (exec_runAll uart some calls (configured state divisor))]
  rfl

theorem emitted_session {polls : Nat} (some : 0 < polls) (calls : List UartCall)
    (divisor : BitVec 32) (state : MockUart.State) :
    (uartSessionWith base polls calls (.ok divisor)).emitted uartDevice sends state =
      (returning state calls).flatMap UartCall.text := by
  have quiet : (ApbUartHal.initWith base (.ok divisor)).emitted uartDevice sends state = [] := by
    refine (emitted_bind_of _ _ (exec_configure uart divisor state)
      (emitted_configure uart divisor state)).trans ?_
    rfl
  have visible : (configured state divisor).dlab = false := by
    change (0x03#8).getLsbD 7 = false
    decide
  rw [uartSessionWith, emitted_bind_of _ _ (exec_initWith uart divisor state) quiet,
    UartCall.runInitialised, emitted_bind_of _ _ (exec_runAll uart some calls _)
      (emitted_runAll uart some calls visible)]
  exact List.append_nil _

/-! Addresses -/

theorem readU8_uses {ofs : BitVec 32} (inside : ofs.toNat < 32) :
    (readU8 (base + ofs)).Uses fun addr => decode addr.toNat = 1#3 :=
  And.intro (uart.decode inside) fun _ => trivial

theorem waitTransmitEmpty_uses (polls : Nat) :
    (ApbUartHal.waitTransmitEmpty base polls).Uses fun addr => decode addr.toNat = 1#3 := by
  induction polls with
  | zero => trivial
  | succ polls ih =>
      refine Program.Uses.bind ?_ fun empty => ?_
      · exact Program.Uses.bind (readU8_uses uart (by decide)) fun _ => trivial
      · cases empty with
        | true => trivial
        | false => exact ih

theorem write_uses (polls : Nat) (buf : List (BitVec 8)) :
    (ApbUartHal.write base polls buf).Uses fun addr => decode addr.toNat = 1#3 := by
  have thr := uart.decode (by decide : uartRbrThrDllOfs.toNat < 32)
  induction buf with
  | nil => trivial
  | cons c buf ih =>
      refine Program.Uses.bind ?_ fun sent => ?_
      · refine Program.Uses.bind (waitTransmitEmpty_uses uart polls) fun empty => ?_
        cases empty with
        | true => exact And.intro thr trivial
        | false => trivial
      · cases sent with
        | true => exact ih
        | false => trivial

theorem getc_uses (polls : Nat) :
    (ApbUartHal.getc base polls).Uses fun addr => decode addr.toNat = 1#3 := by
  induction polls with
  | zero => trivial
  | succ polls ih =>
      refine Program.Uses.bind (readU8_uses uart (by decide)) fun lsr => ?_
      by_cases empty : lsr &&& uartLsrRxFifoValidBit = 0
      · simp only [if_pos empty]
        exact ih
      · simp only [if_neg empty]
        have rbr := readU8_uses uart (show (0#32).toNat < 32 by decide)
        rw [BitVec.add_zero] at rbr
        exact Program.Uses.bind rbr fun _ => trivial

theorem call_uses (polls : Nat) (call : UartCall) :
    (call.run base polls).Uses fun addr => decode addr.toNat = 1#3 := by
  cases call with
  | write buf => exact write_uses uart polls buf
  | flush => exact waitTransmitEmpty_uses uart polls
  | getc => exact Program.Uses.bind (getc_uses uart polls) fun _ => trivial
  | listen int =>
      have lcr := uart.decode (by decide : uartLcrOfs.toNat < 32)
      have ier := uart.decode (by decide : uartIerDlmOfs.toNat < 32)
      exact And.intro lcr fun _ => And.intro lcr (And.intro ier (And.intro lcr trivial))

theorem runAll_uses (polls : Nat) (calls : List UartCall) :
    (UartCall.runAll base polls calls).Uses fun addr => decode addr.toNat = 1#3 := by
  induction calls with
  | nil => trivial
  | cons call calls ih =>
      refine Program.Uses.bind (call_uses uart polls call) fun returned => ?_
      cases returned with
      | true => exact ih
      | false => trivial

theorem session_uses (polls : Nat) (calls : List UartCall) (divisor : BitVec 32) :
    (uartSessionWith base polls calls (.ok divisor)).Uses fun addr =>
      decode addr.toNat = 1#3 := by
  refine Program.Uses.bind (initWith_uses uart divisor) fun initialised => ?_
  cases initialised with
  | error panic => trivial
  | ok _ => exact Program.Uses.bind (runAll_uses uart polls calls) fun _ => trivial

end Console

section Sessions

variable {demux : ApbDemux} (documented : demux.Documented) {base : BitVec 32}
  (uart : UartAt base) {start : State} {input : Nat → Input} {polls first last : Nat}
  {accesses : List Nat}

include documented uart

/-- Bytes are printed in order, once each, and nothing else is, unless DLAB sends all of them to
the divisor latch; either way the writing returns. -/
theorem write_console (some : 0 < polls) {buf : List (BitVec 8)} {returned : Bool}
    (performs : Performs (circuit demux) periphBus (UartQuiet demux) start input
      (ApbUartHal.write base polls buf) first accesses last returned) :
    returned = true ∧
      (circuit demux).transcript (uartTx demux) start input first last =
        (if ((circuit demux).runFrom start input first).uart.dlab then [] else buf) ∧
      ((circuit demux).runFrom start input last).uart =
        typed ((circuit demux).runFrom start input first).uart buf := by
  obtain ⟨ends, text⟩ := (uart_serves documented).transcript (uart_emits documented)
    (write_uses uart polls buf) performs
  rw [exec_write uart some, Prod.mk.injEq] at ends
  exact ⟨ends.1.symm, text.trans (emitted_write uart some buf _), ends.2.symm⟩

/-- From any state of the UART a session panics where the divisor would be a division by zero, and
otherwise prints what its calls write, in order and once, up to the first read of a character where
there is none; the settings of the line are those of the setup in the end. -/
theorem session_console (freq baud : BitVec 32) (some : 0 < polls) (calls : List UartCall)
    {div : Nat} {result : Except Panic Bool}
    (performs : Performs (circuit demux) periphBus (UartQuiet demux) start input
      (uartSession base freq baud polls calls) first (div :: accesses) last result) :
    let before := ((circuit demux).runFrom start input first).uart
    let text := (circuit demux).transcript (uartTx demux) start input first last
    if ((circuit demux).runFrom start input div).cfgRegs.divQ = 0 ∨ baud <<< 4 = 0 then
      result = .error .divisionByZero ∧ text = []
    else
      result = .ok (calls.all (UartCall.returns before)) ∧
        text = (returning before calls).flatMap UartCall.text ∧
        ((circuit demux).runFrom start input last).uart.lcr = 0x03 := by
  rw [uartSession_eq] at performs
  obtain ⟨middle, value, earlier, later, listed, reads, continues⟩ := performs.of_bind
  obtain ⟨_, rfl, passes, reading, after, rfl⟩ := pclkDiv_performed documented reads
  obtain ⟨rfl, rfl⟩ := List.cons.inj listed
  have serves := uart_serves documented
  have waiting : Passes (UartQuiet demux) input first middle := by
    refine passes.append (uart_untouched documented ?_) after
    rw [reading.2.2.2]
    decide
  have nothing : (circuit demux).transcript (uartTx demux) start input first middle = [] :=
    waiting.transcript (uart_emits documented)
  have order := waiting.1
  intro before text
  have split : text = (circuit demux).transcript (uartTx demux) start input middle last :=
    ((circuit demux).transcript_append (uartTx demux) start input order continues.order).trans
      (by rw [nothing, List.nil_append])
  rw [divisor_panics_iff] at continues
  split at continues
  · rename_i panics
    rw [if_pos panics]
    obtain ⟨_, rfl, passes⟩ := continues.of_done
    exact ⟨rfl, split.trans (passes.transcript (uart_emits documented))⟩
  · rename_i divides
    rw [if_neg divides]
    obtain ⟨ends, printed⟩ := serves.transcript (uart_emits documented)
      (session_uses uart polls calls _) continues
    rw [serves.passes waiting] at ends printed
    rw [exec_session uart some, Prod.mk.injEq] at ends
    rw [emitted_session uart some] at printed
    refine ⟨ends.1.symm, split.trans printed, ?_⟩
    rw [← ends.2, foldl_line]
    rfl

end Sessions

-- one character after the setup, with one poll of the line status before it
def greeting (cycle : Nat) : Input :=
  match cycle with
  | 11 => accessing (.read (uartBase + uartLsrOfs))
  | 12 => accessing (.write (uartBase + uartRbrThrDllOfs) 0x4F)
  | other => initialising other

theorem session_greeting :
    let before := ((circuit gatingDemux).runFrom (cutShort 1 0x80) greeting 0).uart
    let text := (circuit gatingDemux).transcript (uartTx gatingDemux) (cutShort 1 0x80) greeting
      0 13
    if ((circuit gatingDemux).runFrom (cutShort 1 0x80) greeting 0).cfgRegs.divQ = 0 ∨
        (115200 : BitVec 32) <<< 4 = 0 then
      (.ok true : Except Panic Bool) = .error .divisionByZero ∧ text = []
    else
      (.ok true : Except Panic Bool) =
          .ok ([UartCall.write [0x4F]].all (UartCall.returns before)) ∧
        text = (returning before [.write [0x4F]]).flatMap UartCall.text ∧
        ((circuit gatingDemux).runFrom (cutShort 1 0x80) greeting 13).uart.lcr = 0x03 := by
  have performs : Performs (circuit gatingDemux) periphBus (UartQuiet gatingDemux) (cutShort 1 0x80)
      greeting (uartSession uartBase 100000000 115200 1 [.write [0x4F]]) 0
      [0, 1, 2, 3, 4, 5, 6, 7, 8, 9, 10, 11, 12] 13 (.ok true) := by
    refine .read ⟨rfl, rfl, rfl, rfl⟩ (.write rfl (.read ⟨rfl, rfl, rfl, rfl⟩ (.write rfl ?_)))
    refine .write rfl (.write rfl (.write rfl (.read ⟨rfl, rfl, rfl, rfl⟩ (.write rfl ?_))))
    exact .write rfl (.write rfl (.read ⟨rfl, rfl, rfl, rfl⟩ (.write rfl (.done _ 13))))
  exact session_console gatingDemux_documented uartAt_uartBase 100000000 115200 Nat.one_pos
    [.write [0x4F]] performs

def typing (cycle : Nat) : Input := greeting (cycle + 11)

theorem write_banked :
    true = true ∧
      (circuit gatingDemux).transcript (uartTx gatingDemux) (cutShort 1 0x80) typing 0 2 =
        (if ((circuit gatingDemux).runFrom (cutShort 1 0x80) typing 0).uart.dlab then []
          else [0x4F]) ∧
      ((circuit gatingDemux).runFrom (cutShort 1 0x80) typing 2).uart =
        typed ((circuit gatingDemux).runFrom (cutShort 1 0x80) typing 0).uart [0x4F] :=
  write_console gatingDemux_documented uartAt_uartBase Nat.one_pos
    (.read ⟨rfl, rfl, rfl, rfl⟩ (.write rfl (.done true 2)))

end Atalanta.Bsp
