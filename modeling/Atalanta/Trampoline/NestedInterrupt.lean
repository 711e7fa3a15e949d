import Atalanta.Trampoline.Wrapper

/-! A handler compiled for the ilp32e calling convention between the wrapper's two halves:
which registers the wrapper with `CALLER_SAVE_EABI` brings back. -/

namespace Atalanta.Trampoline

open WordMemory Preemption Relation

variable {ι : Type} {frame : Frame}

def Image.Stops (image : Image ι frame) (start last : Hart) : Prop :=
  ReflTransGen (fun before after => image.step before = some after) start last ∧
    image.step last = none

theorem still_tolerates (format : CauseFormat) (keep : Word → Prop) (interrupted : Hart) :
    Tolerates still frame format keep interrupted where
  quiet _ same := same
  pc same := congrArg Hart.pc same
  get same reg := congrArg (fun hart => hart.get reg) same
  mie same := congrArg Hart.mie same
  saved same _ saved := by
    rw [show _ = _ from same]
    exact saved

/-- The caller's part of a call: back at the return address, with the stack pointer and the
caller's frame as they were. -/
structure Returns (frame : Frame) (call ret : Hart) : Prop where
  pc_eq : ret.pc = call.get 1
  sp_eq : ret.get sp = call.get sp
  frame_eq : ∀ byte, (byte - call.get sp).toNat < frameBytes frame → ret.mem byte = call.mem byte

/-- Undisturbed, the wrapper calls the handler with the registers outside the frame as they
were, and after any return brings back the frame's registers and the stack pointer only. -/
theorem wrapper_registers (image : Image ι frame) (format : CauseFormat) (irq : ι)
    (interrupted : Hart) (code : Word) (level : BitVec 8) :
    ∃ call, image.Stops (interrupted.takeTrap format (image.startTrap irq) code level) call ∧
      call.pc = image.interrupt irq ∧
      (∀ reg, reg ∉ frame.regs → reg ≠ sp → call.get reg = interrupted.get reg) ∧
      ∀ ret, Returns frame call ret → ∃ last next, image.Stops ret last ∧
        image.fetch last.pc = some (.mret, next) ∧ last.get sp = interrupted.get sp ∧
        (∀ reg ∈ frame.regs, last.get reg = interrupted.get reg) ∧
        ∀ reg, reg ∉ frame.regs → reg ≠ sp → last.get reg = ret.get reg := by
  have nothing : ∀ byte : Word, False →
      frameBytes frame ≤ (byte - frameBase frame interrupted).toNat := fun _ => False.elim
  obtain ⟨call, entered, called⟩ := (entry_leads
    (still_tolerates format (fun _ => False) interrupted) irq code level nothing).runs
  refine ⟨call, ⟨entered, ?_⟩, called.inside.pc_eq, called.inside.others_eq, ?_⟩
  · rw [Image.step, called.inside.pc_eq, image.interruptOutside]
  · intro ret returns
    have base : ret.get sp = frameBase frame interrupted :=
      returns.sp_eq.trans called.inside.base
    have saved : Saved frame format (fun _ => False) interrupted ret.mem := by
      apply called.inside.saved.congr
      · rw [← called.inside.base]
        exact returns.frame_eq
      · exact fun _ => False.elim
    obtain ⟨last, left, ⟨next, atMret⟩, restoring⟩ := (exit_leads
      (still_tolerates format (fun _ => False) interrupted)
      ⟨returns.pc_eq.trans called.ra, base, saved, fun _ _ _ => rfl⟩).runs
    refine ⟨last, next, ⟨left, ?_⟩, atMret, restoring.sp_eq, restoring.regs, restoring.others_eq⟩
    rw [Image.step, atMret]
    rfl

-- `ra`, `t0` to `t2` and `a0` to `a5`
def ilp32eCallerSaved : List Reg := [1, 5, 6, 7, 10, 11, 12, 13, 14, 15]

structure Conforms (call ret : Hart) : Prop extends Returns callerSaveFrame call ret where
  get_eq : ∀ reg, reg ∉ ilp32eCallerSaved → ret.get reg = call.get reg

theorem unsaved_iff (reg : Reg) : reg ∈ ilp32eCallerSaved ∧ reg ∉ callerSaveFrame.regs ↔
    reg = 6 ∨ reg = 7 ∨ reg = 14 := by
  revert reg
  decide

/-- All general-purpose registers survive a nested interrupt exactly when its handler leaves
`x6`, `x7` and `x14`, which the convention lets it change, as it found them. -/
theorem nested_interrupt_restores_iff (image : Image ι callerSaveFrame) (format : CauseFormat)
    (irq : ι) (interrupted : Hart) (code : Word) (level : BitVec 8) :
    ∃ call, image.Stops (interrupted.takeTrap format (image.startTrap irq) code level) call ∧
      call.pc = image.interrupt irq ∧
      ∀ ret, Conforms call ret → ∃ last next, image.Stops ret last ∧
        image.fetch last.pc = some (.mret, next) ∧
        ((∀ reg, (last.mret format).get reg = interrupted.get reg) ↔
          ret.get 6 = call.get 6 ∧ ret.get 7 = call.get 7 ∧ ret.get 14 = call.get 14) := by
  obtain ⟨call, entered, atHandler, passed, leaves⟩ :=
    wrapper_registers image format irq interrupted code level
  refine ⟨call, entered, atHandler, fun ret conforms => ?_⟩
  obtain ⟨last, next, left, atMret, stack, restored, kept⟩ := leaves ret conforms.toReturns
  refine ⟨last, next, left, atMret, ?_⟩
  have through (reg : Reg) (notSaved : reg ∉ callerSaveFrame.regs) (notSp : reg ≠ sp) :
      (last.mret format).get reg = interrupted.get reg ↔ ret.get reg = call.get reg := by
    rw [passed reg notSaved notSp, ← kept reg notSaved notSp]
    rfl
  constructor
  · intro all
    exact ⟨(through 6 (by decide) (by decide)).mp (all 6),
      (through 7 (by decide) (by decide)).mp (all 7),
      (through 14 (by decide) (by decide)).mp (all 14)⟩
  · rintro ⟨six, seven, fourteen⟩ reg
    by_cases saved : reg ∈ callerSaveFrame.regs
    · exact restored reg saved
    · by_cases isSp : reg = sp
      · rw [isSp]
        exact stack
      · apply (through reg saved isSp).mpr
        by_cases clobbered : reg ∈ ilp32eCallerSaved
        · rcases (unsaved_iff reg).mp ⟨clobbered, saved⟩ with rfl | rfl | rfl
          · exact six
          · exact seven
          · exact fourteen
        · exact conforms.get_eq reg clobbered

def liveT1 : Hart where
  pc := 0x3000
  regs reg := if reg = sp then 0x6000 else if reg = 6 then 7 else 0
  mem _ := 0
  mepc := 0
  mcause := 0
  mie := true
  level := 0

/-- A handler that clears `x6` and returns conforms, and the interrupted program finds zero in
place of its value. -/
theorem nested_interrupt_clobbers :
    ∃ call ret last next,
      (assembled callerSaveFrame).Stops (liveT1.takeTrap clicCause 0x1000 17 1) call ∧
      call.pc = 0x4000 ∧ Conforms call ret ∧ (assembled callerSaveFrame).Stops ret last ∧
      assembledFetch callerSaveFrame last.pc = some (.mret, next) ∧
      liveT1.get 6 = 7 ∧ (last.mret clicCause).get 6 = 0 := by
  obtain ⟨call, entered, atHandler, passed, leaves⟩ :=
    wrapper_registers (assembled callerSaveFrame) clicCause () liveT1 17 1
  have conforms : Conforms call ((call.set 6 0).goto (call.get 1)) := by
    refine ⟨⟨rfl, rfl, fun _ _ => rfl⟩, fun reg preserved => ?_⟩
    have notT1 : reg ≠ 6 := by
      rintro rfl
      exact preserved (by decide)
    exact call.get_set_other 0 notT1
  obtain ⟨last, next, left, atMret, _, _, kept⟩ := leaves _ conforms.toReturns
  refine ⟨call, _, last, next, entered, atHandler, conforms, left, atMret, rfl, ?_⟩
  exact kept 6 (by decide) (by decide)

end Atalanta.Trampoline
