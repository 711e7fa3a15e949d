import Atalanta.Bsp.Uart

/-! `ApbUartHal::listen`: the routine rewrites LCR twice around its write to the banked IER. -/

namespace Atalanta.Bsp

open BusProgram RtPeripherals

-- what a write to the banked register leaves, the interrupt bits fitting in IER
def banked (state : MockUart.State) (int : UartInterrupt) : MockUart.State :=
  if state.dlab then { state with dlm := int.repr } else { state with ier := int.repr }

theorem store_int (state : MockUart.State) (int : UartInterrupt) :
    MockUart.store state .ier (int.repr.setWidth 32) = banked state int := by
  have fits : int.repr &&& 0xF = int.repr := by cases int <;> decide
  simp only [MockUart.store, byte_widened, fits, banked]

theorem dlab_kept (state : MockUart.State) :
    ({ state with lcr := state.lcr &&& (0b1#8 <<< 7) } : MockUart.State).dlab = state.dlab := by
  simp [MockUart.State.dlab]

theorem banked_lcr (state : MockUart.State) (int : UartInterrupt) :
    ({ banked { state with lcr := state.lcr &&& (0b1#8 <<< 7) } int with lcr := state.lcr } :
      MockUart.State) = banked state int := by
  unfold banked
  rw [dlab_kept]
  split <;> rfl

theorem lcr_of_banked (state : MockUart.State) (int : UartInterrupt) :
    (banked state int).lcr = state.lcr := by
  unfold banked
  split <;> rfl

theorem banked_banked (state : MockUart.State) (earlier later : UartInterrupt) :
    banked (banked state earlier) later = banked state later := by
  have dlab : (banked state earlier).dlab = state.dlab := by
    rw [MockUart.State.dlab, lcr_of_banked, MockUart.State.dlab]
  unfold banked at *
  rw [dlab]
  split <;> rfl

def listened (state : MockUart.State) (ints : List UartInterrupt) : MockUart.State :=
  ints.foldl banked state

theorem listened_eq (ints : List UartInterrupt) (state : MockUart.State) :
    listened state ints = ints.getLast?.elim state (banked state) := by
  induction ints using List.reverseRecOn with
  | nil => rfl
  | append_singleton ints int ih =>
      rw [listened, List.foldl_append, List.getLast?_concat]
      change banked (listened state ints) int = banked state int
      rw [ih]
      cases ints.getLast? with
      | none => rfl
      | some earlier => exact banked_banked state earlier int

def requested (ints : List UartInterrupt) : BitVec 8 :=
  ints.foldl (fun bits int => bits ||| int.repr) 0

section Device

variable {base : BitVec 32} (uart : UartAt base)

include uart

theorem write_int (int : UartInterrupt) (state : MockUart.State) :
    uartDevice.write state (base + uartIerDlmOfs) (int.repr.setWidth 32) = banked state int :=
  (uart_write uart (by decide) _ state).trans (store_int state int)

theorem listen_states (int : UartInterrupt) (state : MockUart.State) :
    (ApbUartHal.listen base int).states uartDevice state =
      [state, state, { state with lcr := state.lcr &&& (0b1#8 <<< 7) },
        banked { state with lcr := state.lcr &&& (0b1#8 <<< 7) } int, banked state int] := by
  have read := read_lcr uart state
  change [state, state, uartDevice.write state (base + uartLcrOfs) _,
    uartDevice.write (uartDevice.write state (base + uartLcrOfs) _) (base + uartIerDlmOfs) _,
    uartDevice.write (uartDevice.write (uartDevice.write state (base + uartLcrOfs) _)
      (base + uartIerDlmOfs) _) (base + uartLcrOfs) _] = _
  rw [read, write_lcr uart, write_int uart, write_lcr uart, banked_lcr]

theorem exec_listen (int : UartInterrupt) (state : MockUart.State) :
    (ApbUartHal.listen base int).exec uartDevice state = ((), banked state int) := by
  have read := read_lcr uart state
  change ((), uartDevice.write (uartDevice.write (uartDevice.write state (base + uartLcrOfs) _)
    (base + uartIerDlmOfs) _) (base + uartLcrOfs) _) = _
  rw [read, write_lcr uart, write_int uart, write_lcr uart, banked_lcr]

theorem exec_listens (ints : List UartInterrupt) (state : MockUart.State) :
    (ApbUartHal.listens base ints).exec uartDevice state = ((), listened state ints) := by
  induction ints generalizing state with
  | nil => rfl
  | cons int ints ih =>
      rw [ApbUartHal.listens, exec_bind, exec_listen uart]
      exact ih (banked state int)

/-- Between the accesses LCR is that of before, or DLAB alone of it. -/
theorem listens_lcr (ints : List UartInterrupt) (state : MockUart.State) :
    ∀ other ∈ (ApbUartHal.listens base ints).states uartDevice state,
      other.lcr = state.lcr ∨ other.lcr = state.lcr &&& (0b1#8 <<< 7) := by
  induction ints generalizing state with
  | nil =>
      intro other member
      exact .inl (congrArg MockUart.State.lcr (List.mem_singleton.mp member))
  | cons int ints ih =>
      intro other member
      rcases mem_states_bind.mp member with own | rest
      · rw [listen_states uart] at own
        simp only [List.mem_cons, List.not_mem_nil, or_false] at own
        rcases own with rfl | rfl | rfl | rfl | rfl
        · exact .inl rfl
        · exact .inl rfl
        · exact .inr rfl
        · exact .inr (lcr_of_banked _ int)
        · exact .inl (lcr_of_banked _ int)
      · rw [exec_listen uart] at rest
        have same := ih (banked state int) other rest
        rw [lcr_of_banked] at same
        exact same

theorem listens_dlab (ints : List UartInterrupt) (some : ints ≠ []) (state : MockUart.State) :
    ({ state with lcr := state.lcr &&& (0b1#8 <<< 7) } : MockUart.State) ∈
      (ApbUartHal.listens base ints).states uartDevice state := by
  cases ints with
  | nil => exact absurd rfl some
  | cons int ints =>
      refine mem_states_bind.mpr (.inl ?_)
      rw [listen_states uart]
      exact .tail _ (.tail _ (.head _))

theorem listens_uses (ints : List UartInterrupt) :
    (ApbUartHal.listens base ints).Uses fun addr => decode addr.toNat = 1#3 := by
  induction ints with
  | nil => trivial
  | cons int ints ih =>
      have lcr := uart.decode (by decide : uartLcrOfs.toNat < 32)
      have ier := uart.decode (by decide : uartIerDlmOfs.toNat < 32)
      refine Program.Uses.bind ?_ fun _ => ih
      exact And.intro lcr fun _ => And.intro lcr (And.intro ier (And.intro lcr trivial))

end Device

/-- The calls set the interrupts that they are asked for and touch nothing else, and at no moment
show other LCR bits than DLAB changed. -/
structure ListensOnly (before after : MockUart.State) (seen : MockUart.State → Prop)
    (ints : List UartInterrupt) : Prop where
  ier : after.ier = before.ier ||| requested ints
  lcr : after.lcr = before.lcr
  dll : after.dll = before.dll
  dlm : after.dlm = before.dlm
  mcr : after.mcr = before.mcr
  scr : after.scr = before.scr
  lcrBits : ∀ state, seen state → state.lcr &&& 0x7F = before.lcr &&& 0x7F

/-- Unless there is no call: LCR has no bit set but DLAB, and the last of the interrupts is what
the register behind the banked address has to hold in the end. -/
def ListenSafe (state : MockUart.State) (ints : List UartInterrupt) : Prop :=
  ∀ int ∈ ints.getLast?, state.lcr &&& 0x7F = 0 ∧
    if state.dlab then state.ier ||| requested ints = state.ier ∧ state.dlm = int.repr
    else state.ier ||| requested ints = int.repr

theorem listensOnly_iff {state : MockUart.State} {seen : MockUart.State → Prop}
    {ints : List UartInterrupt}
    (within : ∀ other, seen other →
      other.lcr = state.lcr ∨ other.lcr = state.lcr &&& (0b1#8 <<< 7))
    (dlab : ints ≠ [] → seen { state with lcr := state.lcr &&& (0b1#8 <<< 7) })
    (start : ints = [] → ∀ other, seen other → other.lcr = state.lcr) :
    ListensOnly state (listened state ints) seen ints ↔ ListenSafe state ints := by
  have cleared : state.lcr &&& (0b1#8 <<< 7) &&& 0x7F = 0 := by
    rw [BitVec.and_assoc]
    exact BitVec.and_zero
  rw [listened_eq, ListenSafe]
  rcases List.eq_nil_or_concat' ints with rfl | ⟨init, int, rfl⟩
  · constructor
    · rintro _ int ⟨⟩
    · intro _
      refine ⟨BitVec.or_zero.symm, rfl, rfl, rfl, rfl, rfl, fun other sees => ?_⟩
      rw [start rfl other sees]
  · rw [List.getLast?_concat]
    simp only [Option.elim, Option.mem_some_iff, forall_eq']
    have bits : (∀ other, seen other → other.lcr &&& 0x7F = state.lcr &&& 0x7F) ↔
        state.lcr &&& 0x7F = 0 := by
      constructor
      · intro kept
        exact (kept _ (dlab (by simp))).symm.trans cleared
      · intro clear other sees
        rcases within other sees with same | only
        · rw [same]
        · rw [only, cleared, clear]
    rw [← bits]
    unfold banked
    split
    · constructor
      · rintro ⟨ier, _, _, dlm, _, _, lcrBits⟩
        exact ⟨lcrBits, ier.symm, dlm.symm⟩
      · rintro ⟨lcrBits, ier, dlm⟩
        exact ⟨ier.symm, rfl, rfl, dlm.symm, rfl, rfl, lcrBits⟩
    · constructor
      · rintro ⟨ier, _, _, _, _, _, lcrBits⟩
        exact ⟨lcrBits, ier.symm⟩
      · rintro ⟨lcrBits, ier⟩
        exact ⟨ier.symm, rfl, rfl, rfl, rfl, rfl, lcrBits⟩

/-- Calls of `listen` only enable interrupts exactly when there is none, or when neither the line
settings nor what the banked register holds suffers from being overwritten. -/
theorem listen_iff (demux : ApbDemux) (documented : demux.Documented) (base : BitVec 32)
    (uart : UartAt base) (start : State) (input : Nat → Input) (ints : List UartInterrupt)
    (first last : Nat) (accesses : List Nat)
    (performs : Performs (circuit demux) periphBus (UartQuiet demux) start input
      (ApbUartHal.listens base ints) first accesses last ()) :
    ListensOnly ((circuit demux).runFrom start input first).uart
        ((circuit demux).runFrom start input last).uart
        (fun state => ∃ cycle, first ≤ cycle ∧ cycle ≤ last ∧
          ((circuit demux).runFrom start input cycle).uart = state) ints ↔
      ListenSafe ((circuit demux).runFrom start input first).uart ints := by
  have serves := uart_serves documented
  have uses := listens_uses uart ints
  obtain ⟨ends, seen⟩ := serves.performs uses performs
  rw [exec_listens uart, Prod.mk.injEq] at ends
  rw [← ends.2]
  refine listensOnly_iff ?_ ?_ ?_
  · rintro _ ⟨cycle, after, before, rfl⟩
    exact listens_lcr uart ints _ _ (seen cycle after before)
  · intro some
    exact serves.visits uses performs _ (listens_dlab uart ints some _)
  · rintro rfl _ ⟨cycle, after, before, rfl⟩
    exact congrArg MockUart.State.lcr (List.mem_singleton.mp (seen cycle after before))

-- the UART with line settings and enabled interrupts, as two writes after reset leave it
def listening (lcr ier : BitVec 32) : State :=
  (circuit gatingDemux).next ((circuit gatingDemux).next (circuit gatingDemux).reset
    (accessing (.write (uartBase + uartLcrOfs) lcr)))
    (accessing (.write (uartBase + uartIerDlmOfs) ier))

def listenOnce (int : UartInterrupt) (lcr : BitVec 32) (cycle : Nat) : Input :=
  accessing (match cycle with
    | 0 => .read (uartBase + uartLcrOfs)
    | 1 => .write (uartBase + uartLcrOfs) 0
    | 2 => .write (uartBase + uartIerDlmOfs) (int.repr.setWidth 32)
    | 3 => .write (uartBase + uartLcrOfs) lcr
    | _ => .idle)

theorem listen_onData :
    ListensOnly (listening 0 0).uart
      ((circuit gatingDemux).runFrom (listening 0 0) (listenOnce .onData 0) 4).uart
      (fun state => ∃ cycle, 0 ≤ cycle ∧ cycle ≤ 4 ∧
        ((circuit gatingDemux).runFrom (listening 0 0) (listenOnce .onData 0) cycle).uart = state)
      [.onData] := by
  refine (listen_iff gatingDemux gatingDemux_documented uartBase uartAt_uartBase (listening 0 0)
    (listenOnce .onData 0) [.onData] 0 4 [0, 1, 2, 3] ?_).mpr ?_
  · exact .read ⟨rfl, rfl, rfl, rfl⟩ (.write rfl (.write rfl (.write rfl (.done _ 4))))
  · rintro _ ⟨⟩
    decide

/-- On a UART set to 8 data bits that listens for data, listening for an empty transmitter
drops the first interrupt, and the line settings meanwhile. -/
theorem listen_drops_interrupt :
    (circuit gatingDemux).Reachable (listening 3 1) ∧
      Performs (circuit gatingDemux) periphBus (UartQuiet gatingDemux) (listening 3 1)
        (listenOnce .onEmpty 3) (ApbUartHal.listens uartBase [.onEmpty]) 0 [0, 1, 2, 3] 4 () ∧
      (listening 3 1).uart.ier = 1 ∧
      ((circuit gatingDemux).runFrom (listening 3 1) (listenOnce .onEmpty 3) 4).uart.ier = 2 ∧
      ((circuit gatingDemux).runFrom (listening 3 1) (listenOnce .onEmpty 3) 2).uart.lcr = 0 ∧
      ¬ListensOnly (listening 3 1).uart
        ((circuit gatingDemux).runFrom (listening 3 1) (listenOnce .onEmpty 3) 4).uart
        (fun state => ∃ cycle, 0 ≤ cycle ∧ cycle ≤ 4 ∧
          ((circuit gatingDemux).runFrom (listening 3 1) (listenOnce .onEmpty 3) cycle).uart =
            state) [.onEmpty] := by
  refine ⟨.next _ (.next _ .reset), ?_, by decide, by decide, by decide, ?_⟩
  · exact .read ⟨rfl, rfl, rfl, rfl⟩ (.write rfl (.write rfl (.write rfl (.done _ 4))))
  · rintro ⟨ier, _⟩
    revert ier
    decide

end Atalanta.Bsp
