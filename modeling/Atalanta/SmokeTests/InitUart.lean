import Atalanta.Bsp.UartConsole
import Atalanta.Clic.OldApi

/-! `init_uart` of `uart_interrupt.h`, beside `ApbUartHal::init` on the same UART. -/

namespace Atalanta.SmokeTests

open Bsp BusProgram RtPeripherals
open Clic (clicBaseAddr intAddr intAddr_toNat)

def uartLineNum : BitVec 16 := 17

def clicTrigEdge : BitVec 32 := 1
def clicTrigPositive : BitVec 32 := 0#32 <<< 1

-- the CSRs that it sets are not on the bus
def initUartIrq : Driver (Option Unit) := do
  let result ← writeWord clicBaseAddr 0x8 0xFFFFFFFF 0
  match result with
  | none => return none
  | some () =>
      runAll [(uartLineNum, .enableVectoring),
        (uartLineNum, .setTrig (clicTrigPositive ||| clicTrigEdge)),
        (uartLineNum, .setPriority 0x88),
        (uartLineNum, .enableInt)]

def configureUart (divisor : BitVec 32) : Driver Unit := do
  writeU8 (uartBase + uartIerDlmOfs) 0x00
  writeU8 (uartBase + uartLcrOfs) 0x80
  writeU8 (uartBase + uartDlabLsbOfs) (divisor.setWidth 8)
  writeU8 (uartBase + uartDlabMsbOfs) ((divisor >>> 8 &&& 0xFF).setWidth 8)
  writeU8 (uartBase + uartLcrOfs) 0x03
  writeU8 (uartBase + uartIirFcrOfs) 0xC7
  writeU8 (uartBase + uartMcrOfs) 0x20

-- a division by zero is undefined
def initUart (freq baud : BitVec 32) : Driver (Option Unit) :=
  if baud <<< 4 = 0 then return none
  else do
    configureUart (freq / baud <<< 4)
    initUartIrq

theorem low_byte (word : BitVec 32) : (word &&& 0xFF).setWidth 8 = word.setWidth 8 := by
  rw [BitVec.setWidth_and]
  exact BitVec.and_allOnes

theorem exec_configureUart (divisor : BitVec 32) (state : MockUart.State) :
    (configureUart divisor).exec uartDevice state = ((), configured state divisor) := by
  obtain ⟨first, stored⟩ : ∃ first,
      MockUart.store state .ier ((0x00#8).setWidth 32) = first := ⟨_, rfl⟩
  have uart := uartAt_uartBase
  have quieted : (writeU8 (uartBase + uartIerDlmOfs) 0x00).exec uartDevice state = ((), first) :=
    (exec_writeU8 uart (by decide) _ state).trans (congrArg (Prod.mk ()) stored)
  have others := first_write state
  rw [stored] at others
  -- the line control is overwritten, so DLAB alone is set there
  have dlab : ({ first with lcr := 0x80 } : MockUart.State).dlab = true := by
    simp [MockUart.State.dlab]
  have dlab' : ({ first with lcr := 0x80, dll := divisor.setWidth 8 } :
      MockUart.State).dlab = true := dlab
  unfold configureUart
  rw [exec_bind_of _ quieted, exec_bind_of _ (exec_lcr uart _ _),
    exec_bind_of _ (exec_dll uart dlab _), exec_bind_of _ (exec_dlm uart dlab' _),
    exec_bind_of _ (exec_lcr uart _ _), exec_bind_of _ (exec_fcr uart _ _), exec_mcr uart,
    low_byte]
  exact congrArg (fun other : MockUart.State => ((), { other with
    lcr := 0x03
    dll := divisor.setWidth 8
    dlm := (divisor >>> 8).setWidth 8
    mcr := 0
    fifoEnabled := true })) others

theorem configureUart_uses (divisor : BitVec 32) :
    (configureUart divisor).Uses fun addr => decode addr.toNat = 1#3 := by
  have uart := uartAt_uartBase
  have ier := uart.decode (by decide : uartIerDlmOfs.toNat < 32)
  have lsb := uart.decode (by decide : uartDlabLsbOfs.toNat < 32)
  have fcr := uart.decode (by decide : uartIirFcrOfs.toNat < 32)
  have lcr := uart.decode (by decide : uartLcrOfs.toNat < 32)
  have mcr := uart.decode (by decide : uartMcrOfs.toNat < 32)
  exact ⟨ier, lcr, lsb, ier, lcr, fcr, mcr, trivial⟩

/-! The interrupt controller is set up behind it, at other addresses. -/

theorem decode_intAddr (number : BitVec 16) : decode (intAddr number).toNat ≠ 1#3 := by
  have small := number.isLt
  have addr := intAddr_toNat number
  rw [decode, if_neg, if_neg, if_neg]
  · split_ifs <;> decide
  · unfold Inside RtPkg.mTimerEndAddr
    omega
  · unfold Inside RtPkg.uartEndAddr
    omega
  · unfold Inside RtPkg.gpioEndAddr
    omega

theorem runAll_elsewhere (calls : List (BitVec 16 × Call)) :
    (runAll calls).OnlyWrites fun addr _ => decode addr.toNat ≠ 1#3 := by
  induction calls with
  | nil => trivial
  | cons set calls ih =>
      obtain ⟨number, call⟩ := set
      rw [runAll_cons]
      exact Program.OnlyWrites.bind (fun _ => ⟨decode_intAddr number, trivial⟩) fun _ => ih

theorem initUartIrq_eq :
    initUartIrq = (do
      let _ ← readU32 clicBaseAddr
      writeU32 clicBaseAddr 0x8
      runAll [(uartLineNum, .enableVectoring),
        (uartLineNum, .setTrig (clicTrigPositive ||| clicTrigEdge)),
        (uartLineNum, .setPriority 0x88),
        (uartLineNum, .enableInt)]) := by
  have cleared (tmp : BitVec 32) : tmp &&& ~~~(0xFFFFFFFF#32 <<< 0) ||| 0x8#32 <<< 0 = 0x8 := by
    rw [show ~~~(0xFFFFFFFF#32 <<< 0) = 0#32 by decide, BitVec.and_zero, BitVec.zero_or]
    rfl
  refine congrArg (Program.read clicBaseAddr) (funext fun tmp => ?_)
  exact congrArg (fun word => Program.write clicBaseAddr word _) (cleared tmp)

section Run

variable {demux : ApbDemux} {start : State} {input : Nat → Input} {first last : Nat}
  {accesses : List Nat}

theorem runAll_returns {calls : List (BitVec 16 × Call)} {result : Option Unit}
    (performs : Performs (circuit demux) periphBus (UartQuiet demux) start input (runAll calls)
      first accesses last result) : result = some () := by
  induction calls generalizing first accesses with
  | nil => exact performs.of_done.2.1
  | cons set calls ih =>
      obtain ⟨number, call⟩ := set
      rw [runAll_cons] at performs
      obtain ⟨_, _, _, _, _, _, rest⟩ := performs.of_bind
      exact ih rest

theorem uart_kept {β : Type} {program : Driver β} {value : β} (documented : demux.Documented)
    (elsewhere : program.OnlyWrites fun addr _ => decode addr.toNat ≠ 1#3)
    (performs : Performs (circuit demux) periphBus (UartQuiet demux) start input program first
      accesses last value) :
    ((circuit demux).runFrom start input last).uart =
      ((circuit demux).runFrom start input first).uart := by
  have steady : ∀ state step, (UartQuiet demux step ∨ (∃ addr, periphBus.reads addr step) ∨
      ∃ addr data, decode addr.toNat ≠ 1#3 ∧ periphBus.writes addr data step) →
      state.uart = ((circuit demux).runFrom start input first).uart →
      ((circuit demux).next state step).uart =
        ((circuit demux).runFrom start input first).uart := by
    intro state step cycle same
    refine ((uart_serves documented).kept state step ?_).trans same
    rcases cycle with quiet | ⟨addr, _, _, reading, _⟩ | ⟨addr, data, other, write⟩
    · exact quiet
    · by_cases port : decode step.apb.paddr.toNat = 1#3
      · rw [UartQuiet, apbOut_selected documented port, MockUart.writes, reading]
        simp
      · exact uart_untouched documented port
    · refine uart_untouched documented ?_
      rw [show step.apb = _ from write]
      exact other
  exact (performs.passes elsewhere).keeps steady rfl last performs.order (Nat.le_refl last)

/-- The set-up of the interrupt is defined throughout and leaves the UART as it is. -/
theorem initUartIrq_performed {result : Option Unit} (documented : demux.Documented)
    (performs : Performs (circuit demux) periphBus (UartQuiet demux) start input initUartIrq first
      accesses last result) :
    result = some () ∧ ((circuit demux).runFrom start input last).uart =
      ((circuit demux).runFrom start input first).uart := by
  rw [initUartIrq_eq] at performs
  refine ⟨?_, uart_kept documented ?_ performs⟩
  · obtain ⟨_, _, _, _, _, _, written⟩ := performs.of_bind
    obtain ⟨_, _, _, _, _, _, called⟩ := written.of_bind
    exact runAll_returns called
  · exact fun _ => ⟨by decide, runAll_elsewhere _⟩

/-- Where the division is defined, `init_uart` leaves the UART configured with its quotient. -/
theorem initUart_performed {freq baud : BitVec 32} {result : Option Unit}
    (documented : demux.Documented)
    (performs : Performs (circuit demux) periphBus (UartQuiet demux) start input
      (initUart freq baud) first accesses last result) :
    if baud <<< 4 = 0 then result = none
    else result = some () ∧ ((circuit demux).runFrom start input last).uart =
      configured ((circuit demux).runFrom start input first).uart (freq / baud <<< 4) := by
  rw [initUart] at performs
  split_ifs at performs ⊢ with zero
  · exact performs.of_done.2.1
  · obtain ⟨middle, value, _, _, _, configures, continues⟩ := performs.of_bind
    have ends := ((uart_serves documented).performs (configureUart_uses _) configures).1
    rw [exec_configureUart, Prod.mk.injEq] at ends
    obtain ⟨returned, kept⟩ := initUartIrq_performed documented continues
    exact ⟨returned, kept.trans ends.2.symm⟩

theorem halInit_performed {freq baud : BitVec 32} {div : Nat} {returned : Except Panic Unit}
    (documented : demux.Documented)
    (performs : Performs (circuit demux) periphBus (UartQuiet demux) start input
      (ApbUartHal.init uartBase freq baud) first (div :: accesses) last returned) :
    if ((circuit demux).runFrom start input div).cfgRegs.divQ = 0 ∨ baud <<< 4 = 0 then
      returned = .error .divisionByZero
    else
      returned = .ok () ∧ ((circuit demux).runFrom start input last).uart =
        configured ((circuit demux).runFrom start input first).uart
          (freq / (((circuit demux).runFrom start input div).cfgRegs.divQ.setWidth 8).setWidth 32 /
            baud <<< 4) := by
  rw [ApbUartHal.init_eq] at performs
  obtain ⟨middle, value, _, _, listed, reads, continues⟩ := performs.of_bind
  obtain ⟨_, rfl, passes, reading, after, rfl⟩ := pclkDiv_performed documented reads
  obtain ⟨rfl, rfl⟩ := List.cons.inj listed
  have serves := uart_serves documented
  have waiting : Passes (UartQuiet demux) input first middle := by
    refine passes.append (uart_untouched documented ?_) after
    rw [reading.2.2.2]
    decide
  rw [divisor_panics_iff] at continues
  split_ifs at continues ⊢ with panics
  · exact continues.of_done.2.1
  · have ends := (serves.performs (initWith_uses uartAt_uartBase _) continues).1
    rw [exec_initWith uartAt_uartBase, serves.passes waiting, Prod.mk.injEq] at ends
    exact ⟨ends.1.symm, ends.2.symm⟩

end Run

/-- The divisor latches hold the low half of a divisor. -/
theorem configured_eq_iff (state : MockUart.State) (divisor other : BitVec 32) :
    configured state divisor = configured state other ↔
      divisor.setWidth 16 = other.setWidth 16 := by
  have bytes : divisor.setWidth 16 = other.setWidth 16 ↔
      (divisor >>> 8).setWidth 8 = (other >>> 8).setWidth 8 ∧
        divisor.setWidth 8 = other.setWidth 8 := by
    simp only [← BitVec.toNat_inj, BitVec.toNat_setWidth, BitVec.toNat_ushiftRight,
      Nat.shiftRight_eq_div_pow]
    omega
  rw [bytes]
  constructor
  · intro same
    exact ⟨congrArg MockUart.State.dlm same, congrArg MockUart.State.dll same⟩
  · rintro ⟨high, low⟩
    rw [configured, configured, high, low]

/-- What the two drivers make of the same UART. -/
structure Inits (freq baud : BitVec 32) (divider : BitVec 4) (before : MockUart.State)
    (result : Option Unit) (returned : Except Panic Unit) (after other : MockUart.State) :
    Prop where
  undefined : result = none ↔ baud <<< 4 = 0
  panics : returned = .error .divisionByZero ↔ divider = 0 ∨ baud <<< 4 = 0
  configures : result = some () → after = configured before (freq / baud <<< 4)
  agree : result = some () → returned = .ok () →
    (after = other ↔ (freq / baud <<< 4).setWidth 16 =
      (freq / (divider.setWidth 8).setWidth 32 / baud <<< 4).setWidth 16)

/-- At any timings, the C driver is undefined and the Rust driver panics exactly where they divide
by zero. Where neither does, both leave the same UART exactly when the low halves of their divisors
agree. -/
theorem init_uart_agrees (demux : ApbDemux) (documented : demux.Documented) (freq baud : BitVec 32)
    (start other : State) (input otherInput : Nat → Input) (first last otherFirst otherLast : Nat)
    (accesses rest : List Nat) (div : Nat) (result : Option Unit) (returned : Except Panic Unit)
    (same : ((circuit demux).runFrom start input first).uart =
      ((circuit demux).runFrom other otherInput otherFirst).uart)
    (inits : Performs (circuit demux) periphBus (UartQuiet demux) start input
      (initUart freq baud) first accesses last result)
    (halInits : Performs (circuit demux) periphBus (UartQuiet demux) other otherInput
      (ApbUartHal.init uartBase freq baud) otherFirst (div :: rest) otherLast returned) :
    Inits freq baud ((circuit demux).runFrom other otherInput div).cfgRegs.divQ
      ((circuit demux).runFrom start input first).uart result returned
      ((circuit demux).runFrom start input last).uart
      ((circuit demux).runFrom other otherInput otherLast).uart := by
  have first := initUart_performed documented inits
  have second := halInit_performed documented halInits
  by_cases zero : baud <<< 4 = 0
  · rw [if_pos zero] at first
    have panics : ((circuit demux).runFrom other otherInput div).cfgRegs.divQ = 0 ∨
        baud <<< 4 = 0 := .inr zero
    rw [if_pos panics] at second
    exact ⟨⟨fun _ => zero, fun _ => first⟩, ⟨fun _ => panics, fun _ => second⟩, by simp [first],
      by simp [first]⟩
  · rw [if_neg zero] at first
    obtain ⟨defined, after⟩ := first
    have undefined : result = none ↔ baud <<< 4 = 0 :=
      ⟨fun none => by simp [defined] at none, fun divides => absurd divides zero⟩
    split_ifs at second with panics
    · exact ⟨undefined, ⟨fun _ => panics, fun _ => second⟩, fun _ => after, by simp [second]⟩
    · obtain ⟨ok, otherAfter⟩ := second
      refine ⟨undefined, ⟨fun panicked => by simp [ok] at panicked, fun divides => ?_⟩,
        fun _ => after, fun _ _ => ?_⟩
      · exact absurd divides panics
      · rw [after, otherAfter, ← same]
        exact configured_eq_iff _ _ _

-- the words of the interrupt controller read as zero
def initialisingUart (cycle : Nat) : Input :=
  accessing (match cycle with
    | 0 => .write (uartBase + uartIerDlmOfs) 0
    | 1 => .write (uartBase + uartLcrOfs) 0x80
    | 2 => .write (uartBase + uartDlabLsbOfs) 54
    | 3 => .write (uartBase + uartDlabMsbOfs) 0
    | 4 => .write (uartBase + uartLcrOfs) 3
    | 5 => .write (uartBase + uartIirFcrOfs) 0xC7
    | 6 => .write (uartBase + uartMcrOfs) 0x20
    | 7 => .read clicBaseAddr
    | 8 => .write clicBaseAddr 8
    | 9 => .read 0x51044
    | 10 => .write 0x51044 0x10000
    | 11 => .read 0x51044
    | 12 => .write 0x51044 0x20000
    | 13 => .read 0x51044
    | 14 => .write 0x51044 0x88000000
    | 15 => .read 0x51044
    | 16 => .write 0x51044 0x100
    | _ => .idle)

theorem initUart_performs :
    Performs (circuit gatingDemux) periphBus (UartQuiet gatingDemux) (cutShort 1 0x80)
      initialisingUart (initUart 100000000 115200) 0
      [0, 1, 2, 3, 4, 5, 6, 7, 8, 9, 10, 11, 12, 13, 14, 15, 16] 17 (some ()) := by
  refine .write rfl (.write rfl (.write rfl (.write rfl (.write rfl (.write rfl ?_)))))
  refine .write rfl (.read ⟨rfl, rfl, rfl, rfl⟩ (.write rfl ?_))
  refine .read ⟨rfl, rfl, rfl, rfl⟩ (.write rfl (.read ⟨rfl, rfl, rfl, rfl⟩ (.write rfl ?_)))
  refine .read ⟨rfl, rfl, rfl, rfl⟩ (.write rfl (.read ⟨rfl, rfl, rfl, rfl⟩ (.write rfl ?_)))
  exact .done _ 17

theorem init_uart_agrees_after_cut :
    Inits 100000000 115200 1 (cutShort 1 0x80).uart (some ()) (.ok ())
      ((circuit gatingDemux).runFrom (cutShort 1 0x80) initialisingUart 17).uart
      ((circuit gatingDemux).runFrom (cutShort 1 0x80) initialising 11).uart := by
  refine init_uart_agrees gatingDemux gatingDemux_documented 100000000 115200 (cutShort 1 0x80)
    (cutShort 1 0x80) initialisingUart initialising 0 17 0 11 _ [1, 2, 3, 4, 5, 6, 7, 8, 9, 10] 0
    _ _ rfl initUart_performs ?_
  refine .read ⟨rfl, rfl, rfl, rfl⟩ (.write rfl (.read ⟨rfl, rfl, rfl, rfl⟩ (.write rfl ?_)))
  refine .write rfl (.write rfl (.write rfl (.read ⟨rfl, rfl, rfl, rfl⟩ (.write rfl ?_))))
  exact .write rfl (.write rfl (.done _ 11))

end Atalanta.SmokeTests
