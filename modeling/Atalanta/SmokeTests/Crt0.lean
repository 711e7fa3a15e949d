import Atalanta.Trampoline.Wrapper

/-! The interrupt wrappers of the smoke tests, `crt0.S`, and what is left of the registers of the
program that they interrupt. -/

namespace Atalanta.Crt0

open Trampoline WordMemory Relation

abbrev ra : Reg := 1
abbrev gp : Reg := 3
abbrev t0 : Reg := 5
abbrev t1 : Reg := 6
abbrev t2 : Reg := 7
abbrev a0 : Reg := 10
abbrev a1 : Reg := 11
abbrev a2 : Reg := 12
abbrev a3 : Reg := 13
abbrev a4 : Reg := 14
abbrev a5 : Reg := 15

inductive Callee
  | uartHandler
  | pendInt
deriving DecidableEq, Repr

inductive Op
  | instr (plain : Instr)
  | lui (rd : Reg) (value : Word)
  | slli (rd rs : Reg) (shamt : Nat)
  -- the target is a position in the wrapper
  | beq (left right : Reg) (target : Nat)
  | jal (callee : Callee)
deriving DecidableEq, Repr

def nop : Op := .instr (.addi 0 0 0)

def li (rd : Reg) (value : Word) : List Op :=
  [.lui rd ((value + 0x800) &&& 0xfffff000),
    .instr (.addi rd rd (value - ((value + 0x800) &&& 0xfffff000)))]

abbrev la := li

def mtimeCtrlAddr : Word := 0x30210
def mtimecmpLowAddr : Word := 0x30208
def dmaVarAddr : Word := 0x25f00

def save (regs : List Reg) : List Instr :=
  .addi sp sp (-36) :: (storeTrap regs ++
    [.csrr t0 .mepc, .csrr t1 .mcause, .sw t0 28 sp, .sw t1 32 sp, .csrsi .mstatus 8])

def restore (regs : List Reg) : List Instr :=
  [.csrci .mstatus 8, .lw t0 28 sp, .lw t1 32 sp, .csrw .mcause t1, .csrw .mepc t0] ++
    (loadTrap regs ++ [.addi sp sp 36])

def wrapped (regs : List Reg) (body : List Op) : List Op :=
  (save regs).map .instr ++ (body ++ ((restore regs).map .instr ++ [.instr .mret]))

def dmaHandler0 : List Op :=
  [nop, nop] ++ la t0 dmaVarAddr ++
    [.instr (.lw t1 0 t0), .instr (.addi t1 t1 1), .instr (.sw t1 0 t0), nop, nop, .instr .mret]

def irqHandler0 : List Op :=
  wrapped [ra, t0, a0, a1, a2, a3, t1]
    [.instr (.addi gp 0 0x500), .slli gp gp 4, .instr (.lw t0 0 gp), .instr (.addi t0 t0 1),
      .instr (.sw t0 0 gp)]

def uartHandler1 : List Op :=
  wrapped [ra, t0, a0, a1, a4, a5, t1] [.jal .uartHandler]

def quit : Nat := 49

def mtimerHandler : List Op :=
  wrapped [ra, t0, a0, a1, a2, a3, t1]
    (la a2 0x5e00 ++
      [.instr (.lw a3 0 a2), .instr (.addi a3 a3 (-1)), .instr (.sw a3 0 a2), .beq a3 0 quit] ++
      li t0 0xf00 ++ la t1 mtimeCtrlAddr ++ [.instr (.sw t0 0 t1), nop, .beq a3 0 quit] ++
      la t1 mtimecmpLowAddr ++
      [.instr (.lw t0 0 t1), .instr (.addi t0 t0 0x20), .instr (.sw t0 0 t1)] ++
      li t0 0xf01 ++ la t1 mtimeCtrlAddr ++ [.instr (.sw t0 0 t1)] ++
      [.instr (.addi gp 0 0x5f0), .slli gp gp 4, .instr (.lw a0 0 gp), .instr (.addi a0 a0 1),
        .instr (.sw a0 0 gp), .jal .pendInt] ++
      [nop, nop, nop, nop, nop, nop, nop])

theorem quit_placed : mtimerHandler[quit]? = some (.instr (.csrci .mstatus 8)) := rfl

inductive Wrapper
  | dmaHandler0
  | irqHandler0
  | uartHandler1
  | mtimerHandler
deriving DecidableEq, Repr

def code : Wrapper → List Op
  | .dmaHandler0 => dmaHandler0
  | .irqHandler0 => irqHandler0
  | .uartHandler1 => uartHandler1
  | .mtimerHandler => mtimerHandler

def Op.effect (op : Op) (hart : Hart) : Hart :=
  match op with
  | .instr plain => plain.effect hart
  | .lui rd value => hart.set rd value
  | .slli rd rs shamt => hart.set rd (hart.get rs <<< shamt)
  | .beq _ _ _ | .jal _ => hart

def Op.rd : Op → Option Reg
  | .instr (.addi rd _ _) => some rd
  | .instr (.lw rd _ _) => some rd
  | .instr (.csrr rd _) => some rd
  | .instr (.auipc rd _) => some rd
  | .lui rd _ => some rd
  | .slli rd _ _ => some rd
  | _ => none

/-- Where the wrapper goes on; a call and the return from the trap are not among its own steps. -/
def Op.next (op : Op) (position : Nat) (hart : Hart) : Option Nat :=
  match op with
  | .instr .mret => none
  | .instr (.j _) => none
  | .instr (.jalr _ _ _) => none
  | .jal _ => none
  | .beq left right target =>
      some (if hart.get left = hart.get right then target else position + 1)
  | _ => some (position + 1)

structure Layout where
  format : CauseFormat
  address : Wrapper → Nat → Word
  entry : Callee → Word

def callerSaved : List Reg := [ra, t0, t1, t2, a0, a1, a2, a3, a4, a5]

/-- What a call leaves as it was; the frame is the one of the calling wrapper. -/
structure Ilp32e (start last : Hart) : Prop where
  regs : ∀ reg, reg ∉ callerSaved → last.get reg = start.get reg
  frame : ∀ index < 9, load last.mem (slot (start.get sp) index) =
    load start.mem (slot (start.get sp) index)
  mepc : last.mepc = start.mepc
  mcause : last.mcause = start.mcause
  mie : last.mie = start.mie

/-- The steps of the compiled functions, which obey the convention when nothing disturbs them. -/
structure Callees (layout : Layout) where
  body : Callee → Hart → Hart → Prop
  obeys : ∀ callee start last, start.pc = layout.entry callee →
    ReflTransGen (body callee) start last → last.pc = start.get ra → Ilp32e start last

inductive Place
  | at (position : Nat)
  | inside (callee : Callee) (back : Nat)

section Machine

variable {layout : Layout} (callees : Callees layout)

def Place.pc (layout : Layout) (wrapper : Wrapper) (hart : Hart) : Place → Word
  | .at position => layout.address wrapper position
  | .inside _ _ => hart.pc

/-- The states between a trap and the `mret` of its wrapper. Whenever interrupts are enabled, in
the wrapper or in the function that it calls, a whole activation of a wrapper may come between;
it goes on where it was interrupted if `mepc` is as the trap left it. -/
inductive Callees.Reaches : Wrapper → Hart → Place → Hart → Prop
  | trap (wrapper : Wrapper) (interrupted : Hart) (cause : Word) (level : BitVec 8) :
      Reaches wrapper interrupted (.at 0)
        (interrupted.takeTrap layout.format (layout.address wrapper 0) cause level)
  | step {wrapper interrupted position hart op next} :
      Reaches wrapper interrupted (.at position) hart → (code wrapper)[position]? = some op →
      op.next position hart = some next →
      Reaches wrapper interrupted (.at next) (op.effect hart)
  | call {wrapper interrupted position hart callee} :
      Reaches wrapper interrupted (.at position) hart →
      (code wrapper)[position]? = some (.jal callee) →
      Reaches wrapper interrupted (.inside callee (position + 1))
        ((hart.set ra (layout.address wrapper (position + 1))).goto (layout.entry callee))
  | body {wrapper interrupted callee back hart after} :
      Reaches wrapper interrupted (.inside callee back) hart → callees.body callee hart after →
      Reaches wrapper interrupted (.inside callee back) after
  | back {wrapper interrupted callee back hart} :
      Reaches wrapper interrupted (.inside callee back) hart →
      hart.pc = layout.address wrapper back →
      Reaches wrapper interrupted (.at back) hart
  | nested {wrapper interrupted place hart other position last} :
      Reaches wrapper interrupted place hart → hart.mie = true →
      Reaches other (hart.goto (place.pc layout wrapper hart)) (.at position) last →
      (code other)[position]? = some (.instr .mret) →
      last.mepc = place.pc layout wrapper hart →
      Reaches wrapper interrupted place (last.mret layout.format)

def Callees.Returns (wrapper : Wrapper) (interrupted last : Hart) : Prop :=
  ∃ position, callees.Reaches wrapper interrupted (.at position) last ∧
    (code wrapper)[position]? = some (.instr .mret)

end Machine

/-- At the wrapper's `mret`: the registers of rv32e and the address to return to. -/
structure Kept (interrupted last : Hart) : Prop where
  regs : ∀ reg : Reg, 1 ≤ reg → reg ≤ 15 → last.get reg = interrupted.get reg
  mepc : last.mepc = interrupted.pc

/-! Straight-line code -/

def Op.plain : Op → Bool
  | .instr .mret => false
  | .instr (.j _) => false
  | .instr (.jalr _ _ _) => false
  | .beq _ _ _ => false
  | .jal _ => false
  | _ => true

theorem next_of_plain {op : Op} (plain : op.plain) (position : Nat) (hart : Hart) :
    op.next position hart = some (position + 1) := by
  cases op with
  | instr own => cases own <;> first | rfl | exact (Bool.false_ne_true plain).elim
  | beq | jal => exact (Bool.false_ne_true plain).elim
  | lui | slli => rfl

def run (ops : List Op) (hart : Hart) : Hart := ops.foldl (fun before op => op.effect before) hart

theorem run_instrs (instrs : List Instr) (hart : Hart) :
    run (instrs.map .instr) hart = effects instrs hart := List.foldl_map

section Reaching

variable {layout : Layout} {callees : Callees layout} {wrapper : Wrapper} {interrupted hart : Hart}
  {position : Nat} {regs : List Reg} {body : List Op}

theorem reaches_run {ops rest : List Op} (plain : ∀ op ∈ ops, op.plain)
    (placed : (code wrapper).drop position = ops ++ rest)
    (reached : callees.Reaches wrapper interrupted (.at position) hart) :
    callees.Reaches wrapper interrupted (.at (position + ops.length)) (run ops hart) := by
  induction ops generalizing position hart with
  | nil => exact reached
  | cons op ops ih =>
      have here : (code wrapper)[position]? = some op := by
        rw [← Nat.add_zero position, ← List.getElem?_drop, placed]
        rfl
      have behind : (code wrapper).drop (position + 1) = ops ++ rest := by
        rw [← List.drop_drop, placed]
        rfl
      have stepped := reached.step here (next_of_plain (plain op List.mem_cons_self) position hart)
      have rest := ih (fun other listed => plain other (List.mem_cons_of_mem op listed)) behind
        stepped
      rwa [Nat.add_right_comm] at rest

end Reaching

/-! The frame -/

def Framed (regs : List Reg) : Prop :=
  regs.length = 7 ∧ sp ∉ regs ∧ t0 ∈ regs ∧ t1 ∈ regs

instance (regs : List Reg) : Decidable (Framed regs) :=
  inferInstanceAs (Decidable (_ ∧ _ ∧ _ ∧ _))

/-- The frame below the stack pointer holds what the wrapper found. -/
structure Saved (regs : List Reg) (start hart : Hart) : Prop where
  base : hart.get sp = start.get sp - 36
  regs : ∀ index reg, regs[index]? = some reg →
    load hart.mem (slot (hart.get sp) index) = start.get reg
  mepc : load hart.mem (slot (hart.get sp) 7) = start.mepc
  mcause : load hart.mem (slot (hart.get sp) 8) = start.mcause

def frameMem (regs : List Reg) (base : Word) (start : Hart) : Memory :=
  store (store (storeSlots base (regs.map (start.set sp base).get) 0 start.mem)
    (slot base 7) start.mepc) (slot base 8) start.mcause

theorem effects_save_eq (regs : List Reg) (start : Hart) :
    effects (save regs) start =
      (Instr.csrsi .mstatus 8).effect
        ((((start.set sp (start.get sp - 36)).set t0 start.mepc).set t1 start.mcause).setMem
          (frameMem regs (start.get sp - 36) start)) := by
  rw [save, effects_cons, effects_append, storeTrap, effects_stores]
  have base : start.get sp + -36 = start.get sp - 36 := (sub_eq_add_neg _ _).symm
  simp only [Instr.effect, base]
  generalize start.get sp - 36 = low
  have lowered : (start.set sp low).get sp = low := rfl
  rw [lowered]
  rfl

theorem frameMem_saved {regs : List Reg} (framed : Framed regs) {base : Word} {start : Hart} :
    (∀ index reg, regs[index]? = some reg →
      load (frameMem regs base start) (slot base index) = start.get reg) ∧
    load (frameMem regs base start) (slot base 7) = start.mepc ∧
    load (frameMem regs base start) (slot base 8) = start.mcause := by
  obtain ⟨size, notSp, _⟩ := framed
  have mapped : (regs.map (start.set sp base).get).length = 7 := by rw [List.length_map, size]
  refine ⟨fun index reg listed => ?_, ?_, ?_⟩
  · have early : index < 7 := size ▸ (List.getElem?_eq_some_iff.mp listed).1
    have apart : reg ≠ sp := ne_of_mem_of_not_mem (List.mem_of_getElem? listed) notSp
    have stored : (regs.map (start.set sp base).get)[index]? = some (start.get reg) := by
      rw [List.getElem?_map, listed, Option.map_some, start.get_set_other _ apart]
    have held := load_storeSlots base _ 0 start.mem (by omega) stored
    rw [Nat.zero_add] at held
    rw [frameMem, load_store_slot _ _ _ (by omega) (by omega) (by omega),
      load_store_slot _ _ _ (by omega) (by omega) (by omega), held]
  · rw [frameMem, load_store_slot _ _ _ (by omega) (by omega) (by omega), load_store_same]
  · rw [frameMem, load_store_same]

theorem effects_save {regs : List Reg} (framed : Framed regs) (start : Hart) :
    Saved regs start (effects (save regs) start) ∧ (effects (save regs) start).mie = true ∧
      ∀ reg, reg ≠ sp → reg ∉ regs → (effects (save regs) start).get reg = start.get reg := by
  obtain ⟨saved, mepc, mcause⟩ := frameMem_saved framed
  rw [effects_save_eq]
  refine ⟨⟨rfl, saved, mepc, mcause⟩, csrsi_mie _, fun reg notSp outside => ?_⟩
  have notT0 : reg ≠ t0 := (ne_of_mem_of_not_mem framed.2.2.1 outside).symm
  have notT1 : reg ≠ t1 := (ne_of_mem_of_not_mem framed.2.2.2 outside).symm
  exact ((Hart.get_set_other _ _ notT1).trans (Hart.get_set_other _ _ notT0)).trans
    (Hart.get_set_other _ _ notSp)

theorem effects_restore {regs : List Reg} (framed : Framed regs) {start hart : Hart}
    (saved : Saved regs start hart) :
    (effects (restore regs) hart).get sp = start.get sp ∧
      (∀ reg ∈ regs, (effects (restore regs) hart).get reg = start.get reg) ∧
      (∀ reg, reg ≠ sp → reg ∉ regs → (effects (restore regs) hart).get reg = hart.get reg) ∧
      (effects (restore regs) hart).mepc = start.mepc ∧
      (effects (restore regs) hart).mcause = start.mcause := by
  obtain ⟨size, notSp, t0Saved, t1Saved⟩ := framed
  have csrs : ∃ csrsRead : Hart,
      effects [.csrci .mstatus 8, .lw t0 28 sp, .lw t1 32 sp, .csrw .mcause t1, .csrw .mepc t0]
        hart = csrsRead ∧ csrsRead.mem = hart.mem ∧ csrsRead.mepc = start.mepc ∧
      csrsRead.mcause = start.mcause ∧
      ∀ reg, reg ≠ t0 → reg ≠ t1 → csrsRead.get reg = hart.get reg := by
    refine ⟨_, rfl, rfl, saved.mepc, saved.mcause, fun reg notT0 notT1 => ?_⟩
    exact (Hart.get_set_other _ _ notT1).trans (Hart.get_set_other _ _ notT0)
  obtain ⟨csrsRead, run, mem, mepc, mcause, others⟩ := csrs
  have base : csrsRead.get sp = hart.get sp := others sp (by decide) (by decide)
  obtain ⟨loaded, loads, restored, kept⟩ := effects_loads start.get rfl regs 0 csrsRead notSp
    fun index reg listed => by
      rw [Nat.zero_add, mem, base]
      exact saved.regs index reg listed
  rw [restore, effects_append, run, effects_append, loadTrap, loads, effects_cons, effects_nil]
  have lifted : (csrsRead.setRegs loaded).get sp = start.get sp - 36 :=
    (kept sp notSp).trans (base.trans saved.base)
  refine ⟨?_, fun reg listed => ?_, fun reg apart outside => ?_, mepc, mcause⟩
  · refine (Hart.get_set_same _ _ (by decide)).trans ?_
    rw [lifted, sub_add_cancel]
  · have apart : reg ≠ sp := ne_of_mem_of_not_mem listed notSp
    exact (Hart.get_set_other _ _ apart).trans (restored reg listed)
  · have notT0 : reg ≠ t0 := (ne_of_mem_of_not_mem t0Saved outside).symm
    have notT1 : reg ≠ t1 := (ne_of_mem_of_not_mem t1Saved outside).symm
    exact (Hart.get_set_other _ _ apart).trans ((kept reg outside).trans (others reg notT0 notT1))

section Wrapped

variable {layout : Layout} {callees : Callees layout} {wrapper : Wrapper} {interrupted hart : Hart}
  {regs : List Reg} {body : List Op}

theorem save_plain (regs : List Reg) : ∀ op ∈ (save regs).map Op.instr, op.plain := by
  simp only [save, storeTrap, List.mem_map, List.mem_cons, List.mem_append, List.not_mem_nil,
    or_false]
  rintro _ ⟨own, (rfl | ⟨pair, _, rfl⟩ | rfl | rfl | rfl | rfl | rfl), rfl⟩ <;> rfl

theorem restore_plain (regs : List Reg) : ∀ op ∈ (restore regs).map Op.instr, op.plain := by
  simp only [restore, loadTrap, List.mem_map, List.mem_cons, List.mem_append, List.not_mem_nil,
    or_false]
  rintro _ ⟨own, ((rfl | rfl | rfl | rfl | rfl) | ⟨pair, _, rfl⟩ | rfl), rfl⟩ <;> rfl

theorem save_length (framed : Framed regs) : ((save regs).map Op.instr).length = 13 := by
  simp [save, storeTrap, framed.1]

theorem restore_length (framed : Framed regs) : ((restore regs).map Op.instr).length = 13 := by
  simp [restore, loadTrap, framed.1]

theorem reaches_saved (framed : Framed regs) (whole : code wrapper = wrapped regs body)
    (interrupted : Hart) (cause : Word) (level : BitVec 8) :
    callees.Reaches wrapper interrupted (.at 13) (effects (save regs)
      (interrupted.takeTrap layout.format (layout.address wrapper 0) cause level)) := by
  have trapped : callees.Reaches wrapper interrupted (.at 0) _ :=
    .trap wrapper interrupted cause level
  have reached := reaches_run (save_plain regs) (List.drop_zero.trans whole) trapped
  rwa [save_length framed, Nat.zero_add, run_instrs] at reached

theorem returns_restored (framed : Framed regs) (whole : code wrapper = wrapped regs body)
    (reached : callees.Reaches wrapper interrupted (.at (13 + body.length)) hart) :
    callees.Returns wrapper interrupted (effects (restore regs) hart) := by
  have behind : (code wrapper).drop (13 + body.length) =
      (restore regs).map .instr ++ [.instr .mret] := by
    rw [whole, wrapped, ← List.append_assoc]
    exact List.drop_left' (by rw [List.length_append, save_length framed])
  have restored := reaches_run (restore_plain regs) behind reached
  rw [restore_length framed, run_instrs] at restored
  refine ⟨_, restored, ?_⟩
  have size := restore_length framed
  rw [← List.getElem?_drop, behind, List.getElem?_append_right (Nat.le_of_eq size), size]
  rfl

end Wrapped

/-! What is lost -/

theorem effect_get_other {op : Op} {reg : Reg} (hart : Hart) (apart : op.rd ≠ some reg) :
    (op.effect hart).get reg = hart.get reg := by
  cases op with
  | instr own =>
      cases own with
      | csrw csr rs => cases csr <;> rfl
      | csrsi csr imm => cases csr <;> rfl
      | csrci csr imm => cases csr <;> rfl
      | sw | j | mret | jalr => rfl
      | addi | lw | csrr | auipc => exact Hart.get_set_other _ _ fun same => apart (same ▸ rfl)
  | lui | slli => exact Hart.get_set_other _ _ fun same => apart (same ▸ rfl)
  | beq | jal => rfl

/-- The function may change `t2`, and none of the wrappers saves it. -/
def flip (callee : Callee) (hart : Hart) : Hart :=
  match callee with
  | .uartHandler => hart.set t2 (~~~hart.get t2)
  | .pendInt => hart

theorem Ilp32e.trans {first second third : Hart} (before : Ilp32e first second)
    (after : Ilp32e second third) : Ilp32e first third where
  regs reg kept := (after.regs reg kept).trans (before.regs reg kept)
  frame index within := by
    have later := after.frame index within
    rw [before.regs sp (by decide)] at later
    exact later.trans (before.frame index within)
  mepc := after.mepc.trans before.mepc
  mcause := after.mcause.trans before.mcause
  mie := after.mie.trans before.mie

theorem flip_ilp32e (callee : Callee) (hart : Hart) (pc : Word) :
    Ilp32e hart ((flip callee hart).goto pc) := by
  cases callee with
  | pendInt => exact ⟨fun _ _ => rfl, fun _ _ => rfl, rfl, rfl, rfl⟩
  | uartHandler =>
      refine ⟨fun reg kept => Hart.get_set_other _ _ ?_, fun _ _ => rfl, rfl, rfl, rfl⟩
      rintro rfl
      exact kept (by decide)

theorem flips_ilp32e {layout : Layout} {callee : Callee} {start last : Hart}
    (steps : ReflTransGen (fun before after => before.pc = layout.entry callee ∧
      after = (flip callee before).goto (before.get ra)) start last) : Ilp32e start last := by
  induction steps with
  | refl => exact ⟨fun _ _ => rfl, fun _ _ => rfl, rfl, rfl, rfl⟩
  | tail _ step ih =>
      obtain ⟨_, rfl⟩ := step
      exact ih.trans (flip_ilp32e callee _ _)

def flipping (layout : Layout) : Callees layout where
  body callee before after :=
    before.pc = layout.entry callee ∧ after = (flip callee before).goto (before.get ra)
  obeys _ _ _ _ steps _ := flips_ilp32e steps

section Losing

variable {layout : Layout} {wrapper : Wrapper} {interrupted hart : Hart} {position : Nat}

theorem flip_t2 (hart : Hart) : (flip .uartHandler hart).get t2 = ~~~hart.get t2 :=
  hart.get_set_same _ (by decide)

theorem flip_goto (callee : Callee) (hart : Hart) (pc : Word) :
    flip callee (hart.goto pc) = (flip callee hart).goto pc := by
  cases callee <;> rfl

theorem flipping_calls {callee : Callee}
    (reached : (flipping layout).Reaches wrapper interrupted (.at position) hart)
    (calls : (code wrapper)[position]? = some (.jal callee)) :
    ∃ after, (flipping layout).Reaches wrapper interrupted (.at (position + 1)) after ∧
      Ilp32e (hart.set ra (layout.address wrapper (position + 1))) after ∧
      after.get t2 = (flip callee hart).get t2 := by
  have left := (reached.call calls).body ⟨rfl, rfl⟩
  rw [flip_goto, Hart.goto_goto] at left
  have returned : ((hart.set ra (layout.address wrapper (position + 1))).goto
      (layout.entry callee)).get ra = layout.address wrapper (position + 1) :=
    hart.get_set_same _ (by decide)
  refine ⟨_, left.back returned, flip_ilp32e callee _ _, ?_⟩
  cases callee with
  | pendInt => rfl
  | uartHandler =>
      rw [Hart.get_goto, flip_t2, flip_t2]
      rfl

theorem uart_calls : (code .uartHandler1)[13]? = some (.jal .uartHandler) := rfl

theorem uart_wrapped : code .uartHandler1 =
    wrapped [ra, t0, a0, a1, a4, a5, t1] [.jal .uartHandler] := rfl

theorem Saved.called {regs : List Reg} {start before after : Hart} {back : Word}
    (saved : Saved regs start before) (size : regs.length = 7)
    (ilp32e : Ilp32e (before.set ra back) after) : Saved regs start after := by
  have base : after.get sp = before.get sp :=
    (ilp32e.regs sp (by decide)).trans (before.get_set_other _ (by decide))
  have held : ∀ index < 9, load after.mem (slot (before.get sp) index) =
      load before.mem (slot (before.get sp) index) := by
    intro index within
    have same := ilp32e.frame index within
    rwa [before.get_set_other _ (by decide)] at same
  refine ⟨base.trans saved.base, fun index reg listed => ?_, ?_, ?_⟩
  · have early : index < regs.length := (List.getElem?_eq_some_iff.mp listed).1
    rw [base, held index (by omega), saved.regs index reg listed]
  · rw [base, held 7 (by decide), saved.mepc]
  · rw [base, held 8 (by decide), saved.mcause]

theorem uart_returns (interrupted : Hart) (cause : Word) (level : BitVec 8) :
    ∃ last, (flipping layout).Returns .uartHandler1 interrupted last ∧
      last.get t2 = ~~~interrupted.get t2 ∧ last.mepc = interrupted.pc := by
  have framed : Framed [ra, t0, a0, a1, a4, a5, t1] := by decide
  have unsaved : (t2 : Reg) ∉ [ra, t0, a0, a1, a4, a5, t1] := by decide
  obtain ⟨saved, _, kept⟩ := effects_save framed
    (interrupted.takeTrap layout.format (layout.address .uartHandler1 0) cause level)
  obtain ⟨after, back, ilp32e, flipped⟩ := flipping_calls
    (reaches_saved framed uart_wrapped interrupted cause level) uart_calls
  obtain ⟨_, _, others, mepc, _⟩ := effects_restore framed (saved.called framed.1 ilp32e)
  refine ⟨_, returns_restored framed uart_wrapped back, ?_, mepc⟩
  rw [others t2 (by decide) unsaved, flipped, flip_t2, kept t2 (by decide) unsaved]
  rfl

/-- At its position in a wrapper of `size` instructions the instruction leads on towards the end,
and leaves `t2` alone. -/
def Op.onward (size position : Nat) (op : Op) : Bool :=
  match op with
  | .instr .mret => true
  | .beq _ _ target => position + 1 < size && position < target && target < size
  | .jal callee => position + 1 < size && callee = .pendInt
  | _ => position + 1 < size && op.rd ≠ some t2 && op.plain

theorem onward_cases {size position : Nat} {op : Op} (onward : op.onward size position) :
    op = .instr .mret ∨ position + 1 < size ∧ (op = .jal .pendInt ∨
      (op.rd ≠ some t2 ∧ op.plain) ∨
      ∃ left right target, op = .beq left right target ∧ position < target ∧ target < size) := by
  cases op with
  | instr own =>
      cases own with
      | mret => exact .inl rfl
      | _ =>
          simp only [Op.onward, Bool.and_eq_true, decide_eq_true_eq] at onward
          exact .inr ⟨onward.1.1, .inr (.inl ⟨onward.1.2, onward.2⟩)⟩
  | lui | slli =>
      simp only [Op.onward, Bool.and_eq_true, decide_eq_true_eq] at onward
      exact .inr ⟨onward.1.1, .inr (.inl ⟨onward.1.2, onward.2⟩)⟩
  | beq left right target =>
      simp only [Op.onward, Bool.and_eq_true, decide_eq_true_eq] at onward
      exact .inr ⟨onward.1.1, .inr (.inr ⟨left, right, target, rfl, onward.1.2, onward.2⟩)⟩
  | jal callee =>
      simp only [Op.onward, Bool.and_eq_true, decide_eq_true_eq] at onward
      obtain ⟨more, rfl⟩ := onward
      exact .inr ⟨more, .inl rfl⟩

theorem returns_onward
    (onward : ∀ entry ∈ (code wrapper).zipIdx, entry.1.onward (code wrapper).length entry.2) :
    ∀ left position hart, position + left + 1 = (code wrapper).length →
      (flipping layout).Reaches wrapper interrupted (.at position) hart →
      ∃ last, (flipping layout).Returns wrapper interrupted last ∧
        last.get t2 = hart.get t2 := by
  intro left
  induction left using Nat.strong_induction_on with
  | _ left ih =>
      intro position hart size reached
      have bound : position < (code wrapper).length := by omega
      obtain ⟨op, here⟩ : ∃ op, (code wrapper)[position]? = some op :=
        ⟨_, List.getElem?_eq_getElem bound⟩
      rcases onward_cases (onward (op, position) (List.mk_mem_zipIdx_iff_getElem?.mpr here)) with
        rfl | ⟨more, rfl | ⟨apart, plain⟩ | ⟨first, second, target, rfl, later, inside⟩⟩
      · exact ⟨hart, ⟨position, reached, here⟩, rfl⟩
      · obtain ⟨after, back, _, kept⟩ := flipping_calls reached here
        obtain ⟨last, returns, same⟩ :=
          ih (left - 1) (by omega) (position + 1) after (by omega) back
        exact ⟨last, returns, same.trans kept⟩
      · have stepped := reached.step here (next_of_plain plain position hart)
        obtain ⟨last, returns, same⟩ :=
          ih (left - 1) (by omega) (position + 1) _ (by omega) stepped
        exact ⟨last, returns, same.trans (effect_get_other hart apart)⟩
      · have stepped := reached.step here rfl
        by_cases same : hart.get first = hart.get second
        · rw [if_pos same] at stepped
          exact ih (left - (target - position)) (by omega) target _ (by omega) stepped
        · rw [if_neg same] at stepped
          exact ih (left - 1) (by omega) (position + 1) _ (by omega) stepped

theorem nested_returns {regs : List Reg} {body : List Op} (framed : Framed regs)
    (whole : code wrapper = wrapped regs body) (unsaved : t2 ∉ regs)
    (onward : ∀ entry ∈ (code wrapper).zipIdx, entry.1.onward (code wrapper).length entry.2)
    (interrupted : Hart) (cause : Word) (level : BitVec 8) :
    ∃ last, (flipping layout).Returns wrapper interrupted last ∧
      last.get t2 = ~~~interrupted.get t2 := by
  have reached : (flipping layout).Reaches wrapper interrupted (.at 13) _ :=
    reaches_saved framed whole interrupted cause level
  obtain ⟨_, enabled, kept⟩ := effects_save framed
    (interrupted.takeTrap layout.format (layout.address wrapper 0) cause level)
  obtain ⟨last, ⟨position, inner, atMret⟩, flipped, mepc⟩ := uart_returns
    ((effects (save regs) (interrupted.takeTrap layout.format (layout.address wrapper 0) cause
      level)).goto (layout.address wrapper 13)) cause level
  have resumed := reached.nested enabled inner atMret mepc
  obtain ⟨final, returns, same⟩ := returns_onward onward ((code wrapper).length - 14) 13 _
    (by rw [whole, wrapped]; simp [save_length framed]; omega) resumed
  refine ⟨final, returns, same.trans (flipped.trans ?_)⟩
  rw [Hart.get_goto, kept t2 (by decide) unsaved]
  rfl

theorem flipped_returns (other : wrapper ≠ .dmaHandler0) (interrupted : Hart) (cause : Word)
    (level : BitVec 8) : ∃ last, (flipping layout).Returns wrapper interrupted last ∧
      last.get t2 = ~~~interrupted.get t2 := by
  have framed : Framed [ra, t0, a0, a1, a2, a3, t1] := by decide
  have unsaved : (t2 : Reg) ∉ [ra, t0, a0, a1, a2, a3, t1] := by decide
  cases wrapper with
  | dmaHandler0 => exact (other rfl).elim
  | uartHandler1 =>
      obtain ⟨last, returns, flipped, _⟩ := uart_returns interrupted cause level
      exact ⟨last, returns, flipped⟩
  | irqHandler0 => exact nested_returns framed rfl unsaved (by decide) interrupted cause level
  | mtimerHandler => exact nested_returns framed rfl unsaved (by decide) interrupted cause level

/-! The wrapper that saves nothing -/

section Dma

variable {callees : Callees layout}

theorem dma_quiet : ∀ op ∈ dmaHandler0, ∀ hart : Hart, (op.effect hart).mie = hart.mie := by
  simp [dmaHandler0, li, nop, Op.effect, Instr.effect]

theorem dma_plain : ∀ op ∈ dmaHandler0, op = .instr .mret ∨ op.plain := by decide

theorem dma_reaches {place : Place} (reached : callees.Reaches wrapper interrupted place hart)
    (dma : wrapper = .dmaHandler0) :
    ∃ position cause level, place = .at position ∧ hart.mie = false ∧
      hart = run (dmaHandler0.take position)
        (interrupted.takeTrap layout.format (layout.address .dmaHandler0 0) cause level) := by
  induction reached with
  | trap wrapper interrupted cause level =>
      subst dma
      exact ⟨0, cause, level, rfl, rfl, rfl⟩
  | @step wrapper interrupted position hart op next _ here moves ih =>
      subst dma
      obtain ⟨_, cause, level, atPosition, off, same⟩ := ih rfl
      obtain rfl := Place.at.inj atPosition
      have listed : op ∈ dmaHandler0 := List.mem_of_getElem? here
      have ahead : next = position + 1 := by
        rcases dma_plain op listed with rfl | plain
        · cases moves
        · exact (Option.some.inj ((next_of_plain plain position hart).symm.trans moves)).symm
      refine ⟨position + 1, cause, level, by rw [ahead], (dma_quiet op listed hart).trans off, ?_⟩
      have taken : dmaHandler0.take (position + 1) = dmaHandler0.take position ++ [op] := by
        rw [List.take_add_one, show dmaHandler0[position]? = some op from here]
        rfl
      rw [taken, run, List.foldl_append, same]
      rfl
  | @call wrapper interrupted position hart callee _ calls _ =>
      subst dma
      have listed : .jal callee ∈ dmaHandler0 := List.mem_of_getElem? calls
      rcases dma_plain _ listed with impossible | impossible <;> cases impossible
  | body _ _ ih =>
      obtain ⟨_, _, _, impossible, _⟩ := ih dma
      cases impossible
  | back _ _ ih =>
      obtain ⟨_, _, _, impossible, _⟩ := ih dma
      cases impossible
  | nested _ enabled _ _ _ ih _ =>
      obtain ⟨_, _, _, _, off, _⟩ := ih dma
      rw [off] at enabled
      cases enabled

def dmaExit (trapped : Hart) : Hart := run (dmaHandler0.take 9) trapped

theorem dma_returns_iff {last : Hart} : callees.Returns .dmaHandler0 interrupted last ↔
    ∃ cause level, last = dmaExit
      (interrupted.takeTrap layout.format (layout.address .dmaHandler0 0) cause level) := by
  constructor
  · rintro ⟨position, reached, atMret⟩
    obtain ⟨_, cause, level, atPosition, _, rfl⟩ := dma_reaches reached rfl
    obtain rfl := Place.at.inj atPosition
    have below : position < 10 := (List.getElem?_eq_some_iff.mp atMret).1
    have final : ∀ position < 10, dmaHandler0[position]? = some (.instr .mret) → position = 9 := by
      decide
    obtain rfl := final position below atMret
    exact ⟨cause, level, rfl⟩
  · rintro ⟨cause, level, rfl⟩
    have trapped : callees.Reaches .dmaHandler0 interrupted (.at 0) _ :=
      .trap .dmaHandler0 interrupted cause level
    have plain : ∀ op ∈ dmaHandler0.take 9, op.plain := by decide
    exact ⟨9, reaches_run plain rfl trapped, rfl⟩

theorem run_li {rd : Reg} (writable : rd ≠ 0) (value : Word) (hart : Hart) :
    run (li rd value) hart = hart.set rd value := by
  have sum : ∀ upper : Word, (hart.set rd upper).get rd + (value - upper) = value := fun upper => by
    rw [hart.get_set_same upper writable, add_sub_cancel]
  simp only [li, run, List.foldl_cons, List.foldl_nil, Op.effect, Instr.effect, sum]
  simp only [Hart.set]
  congr 1
  funext other
  by_cases same : other = rd <;> simp [same]

theorem nop_get (hart : Hart) (reg : Reg) : (nop.effect hart).get reg = hart.get reg := by
  by_cases hardwired : reg = 0
  · rw [hardwired]
    rfl
  · exact Hart.get_set_other _ _ hardwired

theorem dmaExit_regs (trapped : Hart) : (dmaExit trapped).get t0 = dmaVarAddr ∧
    (dmaExit trapped).get t1 = load trapped.mem dmaVarAddr + 1 ∧
    (∀ reg, reg ≠ t0 → reg ≠ t1 → (dmaExit trapped).get reg = trapped.get reg) ∧
    (dmaExit trapped).mepc = trapped.mepc := by
  have split : dmaExit trapped = run [nop, nop] (run [.instr (.lw t1 0 t0),
      .instr (.addi t1 t1 1), .instr (.sw t1 0 t0)]
      (run (la t0 dmaVarAddr) (run [nop, nop] trapped))) := rfl
  rw [split, run_li (by decide)]
  simp only [run, List.foldl_cons, List.foldl_nil, nop_get]
  refine ⟨?_, ?_, fun reg notT0 notT1 => ?_, rfl⟩
  · rw [effect_get_other _ (by decide), effect_get_other _ (by decide),
      effect_get_other _ (by decide)]
    exact Hart.get_set_same _ _ (by decide)
  · rw [effect_get_other _ (by decide)]
    refine (Hart.get_set_same _ _ (by decide)).trans (congrArg (· + 1) ?_)
    refine (Hart.get_set_same _ _ (by decide)).trans (congrArg (load trapped.mem) ?_)
    rw [Hart.get_set_same _ _ (by decide), add_zero]
  · have notLoaded : Op.rd (.instr (.lw t1 0 t0)) ≠ some reg := fun same =>
      notT1 (Option.some.inj same).symm
    have notAdded : Op.rd (.instr (.addi t1 t1 1)) ≠ some reg := fun same =>
      notT1 (Option.some.inj same).symm
    rw [effect_get_other _ (fun same => by cases same), effect_get_other _ notAdded,
      effect_get_other _ notLoaded, Hart.get_set_other _ _ notT0, nop_get, nop_get]

end Dma

end Losing

/-- Whatever the functions that the wrapper calls do within their convention, and whatever
interrupts nest, the interrupted program gets its registers back. -/
def KeepsContext (layout : Layout) (wrapper : Wrapper) (interrupted : Hart) : Prop :=
  ∀ (callees : Callees layout) (last : Hart), callees.Returns wrapper interrupted last →
    Kept interrupted last

/-- No wrapper keeps the interrupted context, except where `dma_handler_0` leaves in `t0` and `t1`
what they hold already. -/
theorem keepsContext_iff (layout : Layout) (wrapper : Wrapper) (interrupted : Hart) :
    KeepsContext layout wrapper interrupted ↔ wrapper = .dmaHandler0 ∧
      interrupted.get t0 = dmaVarAddr ∧
      interrupted.get t1 = load interrupted.mem dmaVarAddr + 1 := by
  constructor
  · intro keeps
    by_cases dma : wrapper = .dmaHandler0
    · subst dma
      have kept := keeps (flipping layout) _ (dma_returns_iff.mpr ⟨0, 0, rfl⟩)
      obtain ⟨address, counter, _, _⟩ := dmaExit_regs
        (interrupted.takeTrap layout.format (layout.address .dmaHandler0 0) 0 0)
      exact ⟨rfl, (kept.regs t0 (by decide) (by decide)).symm.trans address,
        (kept.regs t1 (by decide) (by decide)).symm.trans counter⟩
    · obtain ⟨last, returns, flipped⟩ := flipped_returns dma interrupted 0 0
      have kept := (keeps (flipping layout) last returns).regs t2 (by decide) (by decide)
      rw [flipped] at kept
      have bit := congrArg (fun word : Word => word.getLsbD 0) kept
      simp at bit
  · rintro ⟨rfl, address, counter⟩ callees last returns
    obtain ⟨cause, level, rfl⟩ := dma_returns_iff.mp returns
    obtain ⟨addressSet, counterSet, others, mepc⟩ := dmaExit_regs
      (interrupted.takeTrap layout.format (layout.address .dmaHandler0 0) cause level)
    refine ⟨fun reg _ _ => ?_, mepc⟩
    by_cases isT0 : reg = t0
    · rw [isT0, addressSet, address]
    · by_cases isT1 : reg = t1
      · rw [isT1, counterSet, counter]
        rfl
      · exact others reg isT0 isT1

/-- `crt0.S` places the first instruction of each wrapper; all of them have four bytes. -/
def smokeLayout : Layout where
  format := clicCause
  address wrapper position := BitVec.ofNat 32 (4 * position) + match wrapper with
    | .dmaHandler0 => 0x188
    | .irqHandler0 => 0x1f0
    | .uartHandler1 => 0x2f0
    | .mtimerHandler => 0x41c
  entry callee := match callee with
    | .uartHandler => 0x1000
    | .pendInt => 0x2000

def idle : Hart := ⟨0x3000, fun _ => 0, fun _ => 0, 0, 0, true, 0⟩

theorem idle_loses : ¬KeepsContext smokeLayout .dmaHandler0 idle := by
  intro keeps
  have kept := keeps (flipping smokeLayout) _ (dma_returns_iff.mpr ⟨0, 0, rfl⟩)
  have address := (dmaExit_regs
    (idle.takeTrap clicCause (smokeLayout.address .dmaHandler0 0) 0 0)).1
  exact absurd ((kept.regs t0 (by decide) (by decide)).symm.trans address) (by decide)

end Atalanta.Crt0
