import Atalanta.Library.Device
import Atalanta.Peripherals

/-! The UART driver `uart.rs`, and `mock_uart` among the peripherals as the device that it
drives. -/

namespace Atalanta.Bsp

open BusProgram RtPeripherals

inductive UartInterrupt
  | onData
  | onEmpty
  | onError
deriving DecidableEq, Repr

def UartInterrupt.repr : UartInterrupt → BitVec 8
  | .onData => 0b1
  | .onEmpty => 0b1#8 <<< 1
  | .onError => 0b1#8 <<< 2

def uartBase : BitVec 32 := 0x30100

def uartRbrThrDllOfs : BitVec 32 := 0
def uartDlabLsbOfs : BitVec 32 := uartRbrThrDllOfs
def uartIerDlmOfs : BitVec 32 := 4
def uartDlabMsbOfs : BitVec 32 := uartIerDlmOfs
def uartIirFcrOfs : BitVec 32 := 8
def uartLcrOfs : BitVec 32 := 12
def uartMcrOfs : BitVec 32 := 16

def uartFcrFifoEnBit : BitVec 8 := 0b1
def uartFcrFifoRxResetBit : BitVec 8 := 0b1#8 <<< 1
def uartFcrFifoTxResetBit : BitVec 8 := 0b1#8 <<< 2
def uartFcrTrigRxLsb : BitVec 8 := 0b1#8 <<< 6
def uartFcrTrigRxMsb : BitVec 8 := 0b1#8 <<< 7
def uartLcrDlabBit : BitVec 8 := 0b1#8 <<< 7

inductive UartLcrDataBits
  | bits5
  | bits6
  | bits7
  | bits8
deriving DecidableEq, Repr

def UartLcrDataBits.repr : UartLcrDataBits → BitVec 8
  | .bits5 => 0b00
  | .bits6 => 0b01
  | .bits7 => 0b10
  | .bits8 => 0b11

namespace ApbUartHal

variable (base : BitVec 32)

def configure (divisor : BitVec 32) : Driver Unit := do
  writeU8 (base + uartIerDlmOfs) 0x00
  maskU8 (base + uartLcrOfs) 0x80
  writeU8 (base + uartDlabLsbOfs) (divisor.setWidth 8)
  writeU8 (base + uartDlabMsbOfs) ((divisor >>> 8).setWidth 8)
  writeU8 (base + uartLcrOfs) UartLcrDataBits.bits8.repr
  unmaskU8 (base + uartLcrOfs) uartLcrDlabBit
  writeU8 (base + uartIirFcrOfs)
    (uartFcrFifoEnBit ||| uartFcrFifoRxResetBit ||| uartFcrFifoTxResetBit ||| uartFcrTrigRxLsb |||
      uartFcrTrigRxMsb)
  writeU8 (base + uartMcrOfs) 0x20

def init (freq baud : BitVec 32) : Driver (Except Panic Unit) := do
  let periphClkDiv ← pclkDiv
  orPanic ((checkedDiv freq (periphClkDiv.setWidth 32)).bind (checkedDiv · (baud <<< 4)))
    fun divisor => do
      configure base divisor
      return .ok ()

def listen (int : UartInterrupt) : Driver Unit := do
  let pLcr ← readU8 (base + uartLcrOfs)
  let lcr := pLcr &&& (0b1#8 <<< 7)
  writeU8 (base + uartLcrOfs) lcr
  writeU8 (base + uartIerDlmOfs) int.repr
  writeU8 (base + uartLcrOfs) pLcr

def listens : List UartInterrupt → Driver Unit
  | [] => pure ()
  | int :: ints => do
    listen base int
    listens ints

end ApbUartHal

/-- A UART among the peripherals: its eight words are in the range that the bus gives to it. -/
structure UartAt (base : BitVec 32) : Prop where
  aligned : base.toNat % 32 = 0
  mapped : Inside RtPkg.uartStartAddr RtPkg.uartEndAddr base.toNat

theorem uartAt_uartBase : UartAt uartBase := ⟨by decide, by decide⟩

namespace UartAt

variable {base : BitVec 32} (uart : UartAt base)

include uart

theorem toNat_add {ofs : BitVec 32} (inside : ofs.toNat < 32) :
    (base + ofs).toNat = base.toNat + ofs.toNat := by
  have below := uart.mapped.2
  unfold RtPkg.uartEndAddr at below
  rw [BitVec.toNat_add, Nat.mod_eq_of_lt (by omega)]

theorem decode {ofs : BitVec 32} (inside : ofs.toNat < 32) :
    RtPeripherals.decode (base + ofs).toNat = 1#3 := by
  obtain ⟨above, below⟩ := uart.mapped
  have aligned := uart.aligned
  unfold RtPkg.uartStartAddr at above
  unfold RtPkg.uartEndAddr at below
  rw [uart.toNat_add inside, RtPeripherals.decode, if_neg, if_pos]
  · rfl
  · unfold Inside RtPkg.uartStartAddr RtPkg.uartEndAddr
    omega
  · unfold Inside RtPkg.gpioEndAddr
    omega

theorem index {ofs : BitVec 32} (inside : ofs.toNat < 32) :
    ((base + ofs) >>> 2).setWidth 3 = (ofs >>> 2).setWidth 3 := by
  have aligned := uart.aligned
  apply BitVec.eq_of_toNat_eq
  rw [BitVec.toNat_setWidth, BitVec.toNat_setWidth, BitVec.toNat_ushiftRight,
    BitVec.toNat_ushiftRight, uart.toNat_add inside, Nat.shiftRight_eq_div_pow,
    Nat.shiftRight_eq_div_pow]
  omega

end UartAt

/-! `mock_uart` as a device -/

def uartDevice : Device MockUart.State (BitVec 32) (BitVec 32) where
  read state addr := (MockUart.load state (MockUart.register ((addr >>> 2).setWidth 3)), state)
  write state addr data := MockUart.store state (MockUart.register ((addr >>> 2).setWidth 3)) data

/-- A cycle without a write to the UART. -/
def UartQuiet (demux : ApbDemux) (input : Input) : Prop :=
  MockUart.writes (apbOut demux input.apb 1#3) = false

theorem uart_serves {demux : ApbDemux} (documented : demux.Documented) :
    Serves (circuit demux) periphBus (UartQuiet demux) uartDevice
      (fun addr => decode addr.toNat = 1#3) State.uart where
  read state step addr port reads := by
    obtain ⟨selected, enabled, reading, rfl⟩ := reads
    have routed := apbOut_selected documented port
    have strobe : MockUart.reads step.apb = true := by
      simp [MockUart.reads, selected, enabled, reading]
    have quiet : MockUart.writes step.apb = false := by simp [MockUart.writes, reading]
    refine Prod.ext ?_ ?_
    · refine ((prdata_of_port documented state port).trans ?_).symm
      rw [slaves, if_pos rfl, routed]
      exact if_pos strobe
    · change state.uart = MockUart.next state.uart (apbOut demux step.apb 1#3)
      rw [routed]
      exact (if_neg (by simp [quiet])).symm
  write state step addr data port writes := by
    have routed : apbOut demux step.apb 1#3 = .write addr data := by
      rw [show step.apb = _ from writes]
      exact apbOut_selected documented port
    change MockUart.next state.uart (apbOut demux step.apb 1#3) = _
    rw [routed]
    rfl
  kept state step quiet := by
    change MockUart.next state.uart (apbOut demux step.apb 1#3) = state.uart
    exact if_neg (by rw [show MockUart.writes _ = _ from quiet]; decide)

theorem byte_widened (byte : BitVec 8) : (byte.setWidth 32).extractLsb' 0 8 = byte := by
  rw [← BitVec.setWidth_eq_extractLsb' (by decide), BitVec.setWidth_setWidth_of_le _ (by decide)]
  exact BitVec.setWidth_eq byte

theorem widened_byte (byte : BitVec 8) : (byte.setWidth 32).setWidth 8 = byte := by
  rw [BitVec.setWidth_setWidth_of_le _ (by decide)]
  exact BitVec.setWidth_eq byte

theorem store_lcr (state : MockUart.State) (lcr : BitVec 8) :
    MockUart.store state .lcr (lcr.setWidth 32) = { state with lcr } := by
  simp only [MockUart.store, byte_widened]

section Accesses

variable {base : BitVec 32} (uart : UartAt base)

include uart

theorem uart_read {ofs : BitVec 32} (inside : ofs.toNat < 32) (state : MockUart.State) :
    uartDevice.read state (base + ofs) =
      (MockUart.load state (MockUart.register ((ofs >>> 2).setWidth 3)), state) := by
  rw [← uart.index inside]
  rfl

theorem uart_write {ofs : BitVec 32} (inside : ofs.toNat < 32) (data : BitVec 32)
    (state : MockUart.State) :
    uartDevice.write state (base + ofs) data =
      MockUart.store state (MockUart.register ((ofs >>> 2).setWidth 3)) data := by
  rw [← uart.index inside]
  rfl

theorem write_lcr (lcr : BitVec 8) (state : MockUart.State) :
    uartDevice.write state (base + uartLcrOfs) (lcr.setWidth 32) = { state with lcr } :=
  (uart_write uart (by decide) _ state).trans (store_lcr state lcr)

theorem read_lcr (state : MockUart.State) :
    (uartDevice.read state (base + uartLcrOfs)).1.setWidth 8 = state.lcr := by
  rw [uart_read uart (by decide)]
  exact widened_byte state.lcr

theorem exec_writeU8 {ofs : BitVec 32} (inside : ofs.toNat < 32) (val : BitVec 8)
    (state : MockUart.State) :
    (writeU8 (base + ofs) val).exec uartDevice state =
      ((), MockUart.store state (MockUart.register ((ofs >>> 2).setWidth 3)) (val.setWidth 32)) :=
  congrArg (Prod.mk ()) (uart_write uart inside _ state)

theorem exec_maskU8_lcr (mask : BitVec 8) (state : MockUart.State) :
    (maskU8 (base + uartLcrOfs) mask).exec uartDevice state =
      ((), { state with lcr := state.lcr ||| mask }) := by
  have read := read_lcr uart state
  change ((), uartDevice.write state (base + uartLcrOfs) _) = _
  rw [read, write_lcr uart]

theorem exec_unmaskU8_lcr (unmask : BitVec 8) (state : MockUart.State) :
    (unmaskU8 (base + uartLcrOfs) unmask).exec uartDevice state =
      ((), { state with lcr := state.lcr &&& ~~~unmask }) := by
  have read := read_lcr uart state
  change ((), uartDevice.write state (base + uartLcrOfs) _) = _
  rw [read, write_lcr uart]

end Accesses

end Atalanta.Bsp
