import Atalanta.SmokeTests.UartDelivery

/-! The printing functions of `uart_interrupt.h` as the characters that they give to
`write_serial`, and what the receiver of the text can tell from it. A string is its characters
before the terminator. -/

namespace Atalanta.SmokeTests

-- `res[0]` and `res[1]`
def binToHex (inp : Byte) : Byte × Byte :=
  let inpLow := inp &&& 0xf
  let inpHigh := inp >>> 4 &&& 0xf
  (if inpHigh < 10 then inpHigh + 48 else inpHigh + 55,
    if inpLow < 10 then inpLow + 48 else inpLow + 55)

def printUartInt (addr : BitVec 32) : List Byte :=
  [3, 2, 1, 0].flatMap fun i =>
    let cur := (addr >>> (i * 8) &&& 0xff).setWidth 8
    let hex := binToHex cur
    [hex.1, hex.2]

def percent : Byte := 0x25

-- `none` where it reads behind the terminator or takes an argument that is not there
def printf : List Byte → List (BitVec 32) → Option (List Byte)
  | [], _ => some []
  | c :: rest, args =>
    if c = percent then
      match rest, args with
      | _ :: rest, arg :: args => (printf rest args).map (printUartInt arg ++ ·)
      | _, _ => none
    else (printf rest args).map (c :: ·)

/-! Reading hexadecimal digits -/

def hexDigit (value : BitVec 4) : Byte :=
  if value < 10 then value.setWidth 8 + 48 else value.setWidth 8 + 55

def hexValue (c : Byte) : Option (BitVec 4) :=
  if 48 ≤ c ∧ c ≤ 57 then some ((c - 48).setWidth 4)
  else if 65 ≤ c ∧ c ≤ 70 then some ((c - 55).setWidth 4)
  else none

def readArg : (digits : Nat) → (word : BitVec 32) → List Byte → Option (BitVec 32 × List Byte)
  | 0, word, text => some (word, text)
  | _ + 1, _, [] => none
  | digits + 1, word, c :: text =>
    (hexValue c).bind fun value => readArg digits (word <<< 4 ||| value.setWidth 32) text

theorem hexValue_hexDigit : ∀ value : BitVec 4, hexValue (hexDigit value) = some value := by
  decide

theorem binToHex_eq : ∀ inp : Byte,
    binToHex inp = (hexDigit (inp.extractLsb' 4 4), hexDigit (inp.extractLsb' 0 4)) := by
  decide +kernel

-- the digits of a word below a position, the highest first
def hexDigits (addr : BitVec 32) : Nat → List Byte
  | 0 => []
  | digit + 1 => hexDigit (addr.extractLsb' (4 * digit) 4) :: hexDigits addr digit

theorem printUartInt_eq (addr : BitVec 32) : printUartInt addr = hexDigits addr 8 := by
  have nibble (byte part : Nat) (within : part + 4 ≤ 8) :
      ((addr >>> (byte * 8) &&& 0xff).setWidth 8).extractLsb' part 4 =
        addr.extractLsb' (byte * 8 + part) 4 := by
    have mask : ∀ bit < 8, (0xff : BitVec 32).getLsbD bit = true := by decide
    apply BitVec.eq_of_getLsbD_eq
    intro bit inside
    have inByte : part + bit < 8 := by omega
    simp only [BitVec.getLsbD_extractLsb', BitVec.getLsbD_setWidth, BitVec.getLsbD_and,
      BitVec.getLsbD_ushiftRight, mask _ inByte, inside, inByte, decide_true, Bool.true_and,
      Bool.and_true, Nat.add_assoc]
  simp only [printUartInt, List.flatMap_cons, List.flatMap_nil, binToHex_eq,
    nibble _ 4 (by decide), nibble _ 0 (by decide)]
  rfl

theorem readArg_step (addr : BitVec 32) (digit : Nat) :
    addr >>> (4 * (digit + 1)) <<< 4 ||| (addr.extractLsb' (4 * digit) 4).setWidth 32 =
      addr >>> (4 * digit) := by
  apply BitVec.eq_of_getLsbD_eq
  intro bit within
  simp only [BitVec.getLsbD_or, BitVec.getLsbD_shiftLeft, BitVec.getLsbD_ushiftRight,
    BitVec.getLsbD_setWidth, BitVec.getLsbD_extractLsb', within, decide_true, Bool.true_and]
  by_cases low : bit < 4
  · simp [low]
  · simp [low, show 4 * (digit + 1) + (bit - 4) = 4 * digit + bit by omega]

theorem readArg_hexDigits (addr : BitVec 32) (rest : List Byte) (digits : Nat) :
    readArg digits (addr >>> (4 * digits)) (hexDigits addr digits ++ rest) = some (addr, rest) := by
  induction digits with
  | zero => rfl
  | succ digits ih =>
      rw [hexDigits, List.cons_append, readArg, hexValue_hexDigit, Option.bind_some,
        readArg_step, ih]

theorem readArg_printUartInt (addr : BitVec 32) (rest : List Byte) :
    readArg 8 0 (printUartInt addr ++ rest) = some (addr, rest) := by
  have none : addr >>> (4 * 8) = 0 := BitVec.ushiftRight_eq_zero (Nat.le_refl 32)
  rw [printUartInt_eq, ← none, readArg_hexDigits]

/-! Format strings -/

inductive Piece
  | literal (c : Byte)
  | hole
deriving DecidableEq, Repr

/-- The pieces of a string, in which one character behind each percent sign is skipped. -/
def pieces : List Byte → Option (List Piece)
  | [] => some []
  | c :: rest =>
    if c = percent then
      match rest with
      | _ :: rest => (pieces rest).map (.hole :: ·)
      | [] => none
    else (pieces rest).map (.literal c :: ·)

def holes (format : List Piece) : Nat := format.count .hole

/-- The arguments that a text was printed from. -/
def readBack : List Piece → List Byte → Option (List (BitVec 32))
  | [], [] => some []
  | .literal c :: format, d :: text => if c = d then readBack format text else none
  | .hole :: format, text =>
    (readArg 8 0 text).bind fun (arg, text) => (readBack format text).map (arg :: ·)
  | _, _ => none

@[simp] theorem holes_hole (format : List Piece) : holes (.hole :: format) = holes format + 1 :=
  List.count_cons_self

@[simp] theorem holes_literal (c : Byte) (format : List Piece) :
    holes (.literal c :: format) = holes format :=
  List.count_cons_of_ne (show Piece.literal c ≠ .hole from nofun)

theorem pieces_percent (skipped : Byte) (rest : List Byte) :
    pieces (percent :: skipped :: rest) = (pieces rest).map (.hole :: ·) := by
  rw [pieces.eq_def]
  exact if_pos rfl

theorem pieces_literal {c : Byte} (literal : c ≠ percent) (rest : List Byte) :
    pieces (c :: rest) = (pieces rest).map (.literal c :: ·) := by
  rw [pieces.eq_def]
  exact if_neg literal

theorem printf_isSome_iff (str : List Byte) (args : List (BitVec 32)) :
    (printf str args).isSome ↔ ∃ format, pieces str = some format ∧ holes format ≤ args.length := by
  fun_induction printf str args with
  | case1 args => exact iff_of_true rfl ⟨[], rfl, Nat.zero_le _⟩
  | case2 skipped rest arg args ih =>
      rw [Option.isSome_map, ih, pieces_percent]
      constructor
      · rintro ⟨format, parsed, enough⟩
        exact ⟨.hole :: format, by rw [parsed, Option.map_some], by simpa using enough⟩
      · rintro ⟨format, parsed, enough⟩
        obtain ⟨inner, innerParsed, rfl⟩ := Option.map_eq_some_iff.mp parsed
        exact ⟨inner, innerParsed, by simpa using enough⟩
  | case3 rest args short =>
      refine iff_of_false (by decide) ?_
      rintro ⟨format, parsed, enough⟩
      cases rest with
      | nil =>
          rw [pieces, if_pos rfl] at parsed
          cases parsed
      | cons skipped rest =>
          rw [pieces_percent] at parsed
          obtain ⟨inner, _, rfl⟩ := Option.map_eq_some_iff.mp parsed
          cases args with
          | nil => simp at enough
          | cons arg args => exact short skipped rest arg args rfl rfl
  | case4 c rest args literal ih =>
      rw [Option.isSome_map, ih, pieces_literal literal]
      constructor
      · rintro ⟨format, parsed, enough⟩
        exact ⟨.literal c :: format, by rw [parsed, Option.map_some], by simpa using enough⟩
      · rintro ⟨format, parsed, enough⟩
        obtain ⟨inner, innerParsed, rfl⟩ := Option.map_eq_some_iff.mp parsed
        exact ⟨inner, innerParsed, by simpa using enough⟩

theorem readBack_printf {str : List Byte} {args : List (BitVec 32)} {text : List Byte}
    (printed : printf str args = some text) :
    ∃ format, pieces str = some format ∧
      readBack format text = some (args.take (holes format)) := by
  fun_induction printf str args generalizing text with
  | case1 args =>
      obtain rfl := Option.some.inj printed
      exact ⟨[], rfl, rfl⟩
  | case2 skipped rest arg args ih =>
      obtain ⟨inner, innerPrinted, rfl⟩ := Option.map_eq_some_iff.mp printed
      obtain ⟨format, parsed, read⟩ := ih innerPrinted
      refine ⟨.hole :: format, by rw [pieces_percent, parsed, Option.map_some], ?_⟩
      rw [readBack, readArg_printUartInt, Option.bind_some, holes_hole, List.take_succ_cons]
      exact congrArg (Option.map (arg :: ·)) read
  | case3 rest args short => cases printed
  | case4 c rest args literal ih =>
      obtain ⟨inner, innerPrinted, rfl⟩ := Option.map_eq_some_iff.mp printed
      obtain ⟨format, parsed, read⟩ := ih innerPrinted
      refine ⟨.literal c :: format, by rw [pieces_literal literal, parsed, Option.map_some], ?_⟩
      rw [readBack, if_pos rfl, read, holes_literal]

/-- A call of `printf` stays inside its string and its arguments exactly where a character follows
each percent sign, all but a skipped one, and there is an argument for each. Its characters reach
the transmitter in this order whatever the interrupts do, and the arguments can be told from them
once all are there. -/
theorem printf_delivered (str : List Byte) (args : List (BitVec 32)) :
    ((printf str args).isSome ↔
      ∃ format, pieces str = some format ∧ holes format ≤ args.length) ∧
    ∀ text, printf str args = some text → ∀ events,
      ∃ last calls, Refinement.runs Transmission.accepting events .initial = some (last, calls) ∧
        (calls.reduceOption <+: text → last.uart.transmitted <+: text) ∧
        (calls.reduceOption = text → last.main.waiting = [] → last.uart.txBuffer.stored = [] →
          ∃ format, pieces str = some format ∧
            readBack format last.uart.transmitted = some (args.take (holes format))) := by
  refine ⟨printf_isSome_iff str args, fun text printed events => ?_⟩
  obtain ⟨last, calls, ran, reached⟩ := accepting_run events coherent_initial
  change last.uart.transmitted ++ last.uart.txBuffer.stored ++ last.main.waiting = _ at reached
  rw [show Transmission.initial.onTheWay = [] from rfl, List.nil_append] at reached
  refine ⟨last, calls, ran, fun early => ?_, fun all called drained => ?_⟩
  · refine List.IsPrefix.trans ?_ early
    rw [← reached, List.append_assoc]
    exact List.prefix_append _ _
  · rw [called, drained, List.append_nil, List.append_nil, all] at reached
    rw [reached]
    exact readBack_printf printed

def sendEach (text : List Byte) : List TransmissionEvent :=
  text.flatMap fun a =>
    [.call a, .statement, .statement, .statement, .statement, .interrupt, .handler, .handler,
      .transmitted]

theorem printf_delivered_beef :
    ∃ last calls, Refinement.runs Transmission.accepting
        (sendEach [0x30, 0x30, 0x30, 0x30, 0x42, 0x45, 0x45, 0x46]) .initial = some (last, calls) ∧
      readBack [.hole] last.uart.transmitted = some [0xBEEF] := by
  obtain ⟨last, calls, ran, _, received⟩ := (printf_delivered [percent, 0x78] [0xBEEF]).2
    [0x30, 0x30, 0x30, 0x30, 0x42, 0x45, 0x45, 0x46] (by decide)
    (sendEach [0x30, 0x30, 0x30, 0x30, 0x42, 0x45, 0x45, 0x46])
  have ends : (Refinement.runs Transmission.accepting
      (sendEach [0x30, 0x30, 0x30, 0x30, 0x42, 0x45, 0x45, 0x46]) .initial).map
        (fun (last, calls) =>
          (calls.reduceOption, last.main.waiting, last.uart.txBuffer.stored)) =
      some ([0x30, 0x30, 0x30, 0x30, 0x42, 0x45, 0x45, 0x46], [], []) := by decide
  rw [ran, Option.map_some, Option.some.injEq] at ends
  simp only [Prod.mk.injEq] at ends
  obtain ⟨format, parsed, read⟩ := received ends.1 ends.2.1 ends.2.2
  have same : format = [.hole] := Option.some.inj (parsed.symm.trans (by decide))
  rw [same] at read
  exact ⟨last, calls, ran, read⟩

end Atalanta.SmokeTests
