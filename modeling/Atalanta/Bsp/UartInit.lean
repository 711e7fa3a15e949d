import Atalanta.Bsp.Uart

/-! `ApbUartHal::init`, whose first write is meant for IER but goes to the divisor latch while an
earlier call has left DLAB set. -/

namespace Atalanta.Bsp

open BusProgram RtPeripherals

namespace ApbUartHal

def initWith (base : BitVec 32) (divisor : Except Panic (BitVec 32)) :
    Driver (Except Panic Unit) :=
  orPanic divisor fun divisor => do
    configure base divisor
    return .ok ()

theorem init_eq (base freq baud : BitVec 32) :
    init base freq baud = pclkDiv.bind fun periphClkDiv =>
      initWith base ((checkedDiv freq (periphClkDiv.setWidth 32)).bind
        (checkedDiv · (baud <<< 4))) := rfl

end ApbUartHal

def configured (state : MockUart.State) (divisor : BitVec 32) : MockUart.State :=
  { state with
    lcr := 0x03
    dll := divisor.setWidth 8
    dlm := (divisor >>> 8).setWidth 8
    ier := if state.dlab then state.ier else 0
    mcr := 0
    fifoEnabled := true }

theorem masked_dlab (state : MockUart.State) :
    ({ state with lcr := state.lcr ||| 0x80 } : MockUart.State).dlab = true := by
  simp [MockUart.State.dlab]

theorem first_write (state : MockUart.State) :
    { MockUart.store state .ier ((0x00#8).setWidth 32) with dlm := 0 } =
      { state with dlm := 0, ier := if state.dlab then state.ier else 0 } := by
  unfold MockUart.store
  by_cases banked : state.dlab <;> simp [banked]

section Device

variable {base : BitVec 32} (uart : UartAt base)

include uart

theorem exec_dll {state : MockUart.State} (dlab : state.dlab = true) (val : BitVec 8) :
    (writeU8 (base + uartDlabLsbOfs) val).exec uartDevice state =
      ((), { state with dll := val }) := by
  rw [exec_writeU8 uart (by decide)]
  change ((), MockUart.store state .thr _) = _
  simp only [MockUart.store, dlab, if_true, byte_widened]

theorem exec_dlm {state : MockUart.State} (dlab : state.dlab = true) (val : BitVec 8) :
    (writeU8 (base + uartDlabMsbOfs) val).exec uartDevice state =
      ((), { state with dlm := val }) := by
  rw [exec_writeU8 uart (by decide)]
  change ((), MockUart.store state .ier _) = _
  simp only [MockUart.store, dlab, if_true, byte_widened]

theorem exec_lcr (state : MockUart.State) (val : BitVec 8) :
    (writeU8 (base + uartLcrOfs) val).exec uartDevice state = ((), { state with lcr := val }) := by
  rw [exec_writeU8 uart (by decide)]
  exact congrArg (Prod.mk ()) (store_lcr state val)

theorem exec_fcr (state : MockUart.State) (val : BitVec 8) :
    (writeU8 (base + uartIirFcrOfs) val).exec uartDevice state =
      ((), { state with fifoEnabled := (val.setWidth 32).getLsbD 0 }) :=
  exec_writeU8 uart (by decide) val state

theorem exec_mcr (state : MockUart.State) (val : BitVec 8) :
    (writeU8 (base + uartMcrOfs) val).exec uartDevice state =
      ((), { state with mcr := val &&& 0x1F }) := by
  rw [exec_writeU8 uart (by decide)]
  change ((), MockUart.store state .mcr _) = _
  simp only [MockUart.store, byte_widened]

theorem exec_configure (divisor : BitVec 32) (state : MockUart.State) :
    (ApbUartHal.configure base divisor).exec uartDevice state = ((), configured state divisor) := by
  obtain ⟨first, stored⟩ : ∃ first,
      MockUart.store state .ier ((0x00#8).setWidth 32) = first := ⟨_, rfl⟩
  have quieted : (writeU8 (base + uartIerDlmOfs) 0x00).exec uartDevice state = ((), first) :=
    (exec_writeU8 uart (by decide) _ state).trans (congrArg (Prod.mk ()) stored)
  have others := first_write state
  rw [stored] at others
  -- whatever DLAB was, the divisor is written with DLAB set
  have dlab := masked_dlab first
  have dlab' : ({ first with lcr := first.lcr ||| 0x80, dll := divisor.setWidth 8 } :
      MockUart.State).dlab = true := dlab
  have lcr : UartLcrDataBits.bits8.repr &&& ~~~uartLcrDlabBit = 0x03 := by decide
  unfold ApbUartHal.configure
  rw [exec_bind_of _ quieted, exec_bind_of _ (exec_maskU8_lcr uart _ _),
    exec_bind_of _ (exec_dll uart dlab _), exec_bind_of _ (exec_dlm uart dlab' _),
    exec_bind_of _ (exec_lcr uart _ _), exec_bind_of _ (exec_unmaskU8_lcr uart _ _)]
  simp only [lcr]
  rw [exec_bind_of _ (exec_fcr uart _ _), exec_mcr uart]
  exact congrArg (fun other : MockUart.State => ((), { other with
    lcr := 0x03
    dll := divisor.setWidth 8
    dlm := (divisor >>> 8).setWidth 8
    mcr := 0
    fifoEnabled := true })) others

theorem exec_initWith (divisor : BitVec 32) (state : MockUart.State) :
    (ApbUartHal.initWith base (.ok divisor)).exec uartDevice state =
      (.ok (), configured state divisor) :=
  exec_bind_of _ (exec_configure uart divisor state)

theorem initWith_uses (divisor : BitVec 32) :
    (ApbUartHal.initWith base (.ok divisor)).Uses fun addr => decode addr.toNat = 1#3 := by
  have ier := uart.decode (by decide : uartIerDlmOfs.toNat < 32)
  have lsb := uart.decode (by decide : uartDlabLsbOfs.toNat < 32)
  have fcr := uart.decode (by decide : uartIirFcrOfs.toNat < 32)
  have lcr := uart.decode (by decide : uartLcrOfs.toNat < 32)
  have mcr := uart.decode (by decide : uartMcrOfs.toNat < 32)
  exact And.intro ier (And.intro lcr fun _ => And.intro lcr (And.intro lsb (And.intro ier
    (And.intro lcr (And.intro lcr fun _ => And.intro lcr (And.intro fcr
      (And.intro mcr trivial)))))))

end Device

theorem latches_toNat (divisor : BitVec 32) (fits : divisor.toNat < 2 ^ 16) :
    ((divisor >>> 8).setWidth 8 ++ divisor.setWidth 8 : BitVec 16).toNat = divisor.toNat := by
  rw [BitVec.toNat_append, ← Nat.shiftLeft_add_eq_or_of_lt (BitVec.isLt _), Nat.shiftLeft_eq,
    BitVec.toNat_setWidth, BitVec.toNat_setWidth, BitVec.toNat_ushiftRight,
    Nat.shiftRight_eq_div_pow]
  omega

theorem divisor_quotient {freq baud : BitVec 32} {div : BitVec 4} (divides : div ≠ 0)
    (narrow : 16 * baud.toNat < 2 ^ 32)
    (positive : 1 ≤ freq.toNat / (16 * baud.toNat * div.toNat)) :
    ∃ divisor, (checkedDiv freq ((div.setWidth 8).setWidth 32)).bind (checkedDiv · (baud <<< 4)) =
        .ok divisor ∧ divisor.toNat = freq.toNat / (16 * baud.toNat * div.toNat) := by
  obtain ⟨scaled, divided, quotient⟩ := checkedDiv_widened (by decide : 8 ≤ 32) freq divides
  have shifted : (baud <<< 4).toNat = 16 * baud.toNat := by
    rw [BitVec.toNat_shiftLeft, Nat.shiftLeft_eq, Nat.mod_eq_of_lt (by omega)]
    omega
  have nonzero : baud <<< 4 ≠ 0 := by
    intro zero
    rw [zero] at shifted
    rw [← shifted] at positive
    simp at positive
  refine ⟨scaled / baud <<< 4, ?_, ?_⟩
  · rw [divided]
    exact checkedDiv_of_ne scaled nonzero
  · rw [BitVec.toNat_udiv, quotient, shifted, Nat.div_div_eq_div_mul, Nat.mul_comm]

structure Initialised (state : MockUart.State) (divisor : Nat) (result : Except Panic Unit) :
    Prop where
  returned : result = .ok ()
  latches : (state.dlm ++ state.dll : BitVec 16).toNat = divisor
  ier : state.ier = 0
  lcr : state.lcr = 0x03
  fifo : state.fifoEnabled = true

/-- `init` reaches its configuration exactly from the states in which its first write reaches IER
or IER is clear already. -/
theorem init_iff (demux : ApbDemux) (documented : demux.Documented) (base : BitVec 32)
    (uart : UartAt base) (start : State) (input : Nat → Input) (freq baud : BitVec 32)
    (first div last : Nat) (rest : List Nat) (result : Except Panic Unit)
    (performs : Performs (circuit demux) periphBus (UartQuiet demux) start input
      (ApbUartHal.init base freq baud) first (div :: rest) last result)
    (divides : ((circuit demux).runFrom start input div).cfgRegs.divQ ≠ 0)
    (narrow : 16 * baud.toNat < 2 ^ 32)
    (positive : 1 ≤ freq.toNat / (16 * baud.toNat *
      ((circuit demux).runFrom start input div).cfgRegs.divQ.toNat))
    (fits : freq.toNat / (16 * baud.toNat *
      ((circuit demux).runFrom start input div).cfgRegs.divQ.toNat) ≤ 65535) :
    Initialised ((circuit demux).runFrom start input last).uart
        (freq.toNat / (16 * baud.toNat *
          ((circuit demux).runFrom start input div).cfgRegs.divQ.toNat)) result ↔
      ((circuit demux).runFrom start input first).uart.dlab = false ∨
        ((circuit demux).runFrom start input first).uart.ier = 0 := by
  rw [ApbUartHal.init_eq] at performs
  obtain ⟨middle, value, earlier, later, listed, reads, continues⟩ := performs.of_bind
  obtain ⟨_, rfl, before, reading, after, rfl⟩ := pclkDiv_performed documented reads
  obtain ⟨rfl, rfl⟩ := List.cons.inj listed
  obtain ⟨divisor, chosen, quotient⟩ := divisor_quotient divides narrow positive
  rw [chosen] at continues
  have serves := uart_serves documented
  have waiting : Passes (UartQuiet demux) input first middle := by
    refine before.append (uart_untouched documented ?_) after
    rw [reading.2.2.2]
    decide
  have ends := (serves.performs (initWith_uses uart divisor) continues).1
  rw [exec_initWith uart, serves.passes waiting, Prod.mk.injEq] at ends
  rw [← ends.1, ← ends.2, ← quotient]
  rw [← quotient] at fits
  have latches := latches_toNat divisor (by omega)
  constructor
  · rintro ⟨_, _, ier, _, _⟩
    cases banked : ((circuit demux).runFrom start input first).uart.dlab with
    | false => exact .inl rfl
    | true =>
        right
        rw [configured, banked] at ier
        exact ier
  · intro clear
    refine ⟨rfl, latches, ?_, rfl, rfl⟩
    change (if ((circuit demux).runFrom start input first).uart.dlab then _ else _) = _
    rcases clear with visible | clear
    · rw [visible]
      rfl
    · rw [clear]
      exact ite_self _

-- the UART with an enabled interrupt and then DLAB, as two writes after reset leave it
def cutShort (ier lcr : BitVec 32) : State :=
  (circuit gatingDemux).next ((circuit gatingDemux).next (circuit gatingDemux).reset
    (accessing (.write (uartBase + uartIerDlmOfs) ier)))
    (accessing (.write (uartBase + uartLcrOfs) lcr))

-- 100 MHz over 16 * 115200 is 54
def initialising (cycle : Nat) : Input :=
  accessing (match cycle with
    | 0 => .read (cfgBase + periphClkDivOfs)
    | 1 => .write (uartBase + uartIerDlmOfs) 0
    | 2 => .read (uartBase + uartLcrOfs)
    | 3 => .write (uartBase + uartLcrOfs) 0x80
    | 4 => .write (uartBase + uartDlabLsbOfs) 54
    | 5 => .write (uartBase + uartDlabMsbOfs) 0
    | 6 => .write (uartBase + uartLcrOfs) 3
    | 7 => .read (uartBase + uartLcrOfs)
    | 8 => .write (uartBase + uartLcrOfs) 3
    | 9 => .write (uartBase + uartIirFcrOfs) 0xC7
    | 10 => .write (uartBase + uartMcrOfs) 0x20
    | _ => .idle)

theorem init_after_interrupts :
    Initialised ((circuit gatingDemux).runFrom (cutShort 1 0) initialising 11).uart 54
      (.ok ()) := by
  refine (init_iff gatingDemux gatingDemux_documented uartBase uartAt_uartBase (cutShort 1 0)
    initialising 100000000 115200 0 0 11 [1, 2, 3, 4, 5, 6, 7, 8, 9, 10] (.ok ()) ?_ (by decide)
    (by decide) (by decide) (by decide)).mpr (.inl (by decide))
  refine .read ⟨rfl, rfl, rfl, rfl⟩ (.write rfl (.read ⟨rfl, rfl, rfl, rfl⟩ (.write rfl ?_)))
  refine .write rfl (.write rfl (.write rfl (.read ⟨rfl, rfl, rfl, rfl⟩ (.write rfl ?_))))
  exact .write rfl (.write rfl (.done _ 11))

/-- With DLAB left set the interrupt stays enabled. -/
theorem init_keeps_interrupt :
    (circuit gatingDemux).Reachable (cutShort 1 0x80) ∧
      Performs (circuit gatingDemux) periphBus (UartQuiet gatingDemux) (cutShort 1 0x80)
        initialising (ApbUartHal.init uartBase 100000000 115200) 0
        [0, 1, 2, 3, 4, 5, 6, 7, 8, 9, 10] 11 (.ok ()) ∧
      ((circuit gatingDemux).runFrom (cutShort 1 0x80) initialising 11).uart.ier = 1 ∧
      ¬Initialised ((circuit gatingDemux).runFrom (cutShort 1 0x80) initialising 11).uart 54
        (.ok ()) := by
  refine ⟨.next _ (.next _ .reset), ?_, by decide, ?_⟩
  · refine .read ⟨rfl, rfl, rfl, rfl⟩ (.write rfl (.read ⟨rfl, rfl, rfl, rfl⟩ (.write rfl ?_)))
    refine .write rfl (.write rfl (.write rfl (.read ⟨rfl, rfl, rfl, rfl⟩ (.write rfl ?_))))
    exact .write rfl (.write rfl (.done _ 11))
  · rintro ⟨_, _, ier, _⟩
    revert ier
    decide

end Atalanta.Bsp
