import Atalanta.Library.BitField
import Atalanta.Library.Waveform

/-! The UART of the testbench, `uart.sv`: the task that sends a character, and the process that
prints the characters it hears. -/

namespace Atalanta.Testbench

open BitField Waveform

structure UartBus where
  uartBaudPeriod : Nat
  parityEn : Bool
deriving DecidableEq, Repr

inductive UartEvent
  | parityError (time : Nat)
  | written (time : Nat) (character : BitVec 8)
deriving DecidableEq, Repr

def UartEvent.time : UartEvent → Nat
  | .parityError time => time
  | .written time _ => time

namespace UartBus

variable (bus : UartBus)

/-! Sending -/

def sendBit (c : BitVec 8) (tx : Line) (i : Nat) : Line :=
  (tx.delay bus.uartBaudPeriod).drive (c.getLsbD i)

def sendChar (c : BitVec 8) (tx : Line) : Line :=
  let start := tx.drive false
  let sent := (List.range 8).foldl (bus.sendBit c) start
  ((sent.delay bus.uartBaudPeriod).drive true).delay bus.uartBaudPeriod

/-- The line before the first character. -/
def idle : Line := ⟨0, fun _ => true⟩

/-- A string of SystemVerilog, which holds no zero character. -/
structure SvString where
  chars : List (BitVec 8)
  noZero : 0#8 ∉ chars

-- an index outside of the string reads as zero
def SvString.get (string : SvString) (i : Nat) : BitVec 8 := string.chars.getD i 0

def sendCheckpatternFrom (checkpattern : SvString) : (fuel i : Nat) → Line → Line
  | 0, _, tx => tx
  | fuel + 1, i, tx =>
    if checkpattern.get i ≠ 0 then
      sendCheckpatternFrom checkpattern fuel (i + 1) (bus.sendChar (checkpattern.get i) tx)
    else tx

def sendCheckpattern (checkpattern : SvString) (tx : Line) : Line :=
  bus.sendCheckpatternFrom checkpattern (checkpattern.chars.length + 1) 0 tx

inductive Stimulus
  | wait (duration : Nat)
  | char (c : BitVec 8)
  | checkpattern (pattern : SvString)

def stimulate (tx : Line) : Stimulus → Line
  | .wait duration => tx.delay duration
  | .char c => bus.sendChar c tx
  | .checkpattern pattern => bus.sendCheckpattern pattern tx

def sentLine (script : List Stimulus) : Line := script.foldl bus.stimulate idle

/-! Receiving -/

-- the time, and the character as far as it is known
def receiveBit (rx : Nat → Bool) (frame : Nat × BitVec 8) (i : Nat) : Nat × BitVec 8 :=
  let time := frame.1 + bus.uartBaudPeriod
  (time, putField frame.2 i (BitVec.ofBool (rx time)))

def parityOf (character : BitVec 8) (parity : Bool) : Bool :=
  (List.range 8).reverse.foldl (fun parity i => character.getLsbD i ^^ parity) parity

def checkParity (rx : Nat → Bool) (time : Nat) (character : BitVec 8) : Nat × List UartEvent :=
  if bus.parityEn then
    let time := time + bus.uartBaudPeriod
    (time, if parityOf character (rx time) then [.parityError time] else [])
  else (time, [])

structure Frame where
  character : BitVec 8
  events : List UartEvent
  finish : Nat

def receiveFrame (rx : Nat → Bool) (character : BitVec 8) (start : Nat) : Frame :=
  let received := (List.range 8).foldl (bus.receiveBit rx)
    (start + bus.uartBaudPeriod / 2, character)
  let checked := bus.checkParity rx received.1 received.2
  let finish := checked.1 + bus.uartBaudPeriod
  ⟨received.2, checked.2 ++ [.written finish received.2], finish⟩

/-- What the process prints from `time` up to the horizon, in `fuel` rounds at most. `seen` are the
levels that its samples of the line find. -/
def receive (rx seen rxEn : Nat → Bool) (horizon : Nat) :
    (fuel time : Nat) → (character : BitVec 8) → List UartEvent
  | 0, _, _ => []
  | fuel + 1, time, character =>
    if horizon < time then []
    else if rxEn time then
      match negedge rx horizon time with
      | none => []
      | some start =>
        let frame := bus.receiveFrame seen character start
        frame.events.filter (fun event => event.time ≤ horizon) ++
          receive rx seen rxEn horizon fuel frame.finish frame.character
    else receive rx seen rxEn horizon fuel (time + 10) character

-- a round takes time, so that this many reach the horizon
def printed (rx seen rxEn : Nat → Bool) (horizon : Nat) (character : BitVec 8) :
    List UartEvent :=
  bus.receive rx seen rxEn horizon (horizon + 1) 0 character

end UartBus

end Atalanta.Testbench
