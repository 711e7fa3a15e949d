import Atalanta.Trampoline.Hart

/-! The assembly that `trampoline.rs` emits for software-stacked traps, and programs in which
it has been placed. -/

namespace Atalanta.Trampoline

open WordMemory

def width : Nat := 4

def storeTrap (frame : List Reg) : List Instr :=
  frame.zipIdx.map fun (reg, i) => .sw reg (BitVec.ofNat 32 (i * width)) sp

def loadTrap (frame : List Reg) : List Instr :=
  frame.zipIdx.map fun (reg, i) => .lw reg (BitVec.ofNat 32 (i * width)) sp

def causePos (frame : List Reg) : Nat := frame.length * 4
def epcPos (frame : List Reg) : Nat := (frame.length + 1) * 4

-- `enter_save_count` and `exit_save_count`: the registers, `mcause` and `mepc`
def saveCount (frame : List Reg) : Nat := frame.length + 2

/-- `high` is the value that the first instruction of `la a0, interrupt` leaves. -/
def generateNestedTrapEntry (frame : List Reg) (interrupt high continueNestedTrap : Word) :
    List Instr :=
  .addi sp sp (-BitVec.ofNat 32 (saveCount frame * width)) ::
    (storeTrap frame ++ [
      .csrr 5 .mcause,
      .csrr 15 .mepc,
      .sw 5 (BitVec.ofNat 32 (causePos frame)) sp,
      .sw 15 (BitVec.ofNat 32 (epcPos frame)) sp,
      .csrsi .mstatus 8,
      .auipc 10 high,
      .addi 10 10 (interrupt - high),
      .j continueNestedTrap])

def generateContinueNestedTrapImpl (frame : List Reg) : List Instr :=
  .jalr 1 10 0 ::
    .csrci .mstatus 8 ::
    .lw 15 (BitVec.ofNat 32 (epcPos frame)) sp ::
    .lw 5 (BitVec.ofNat 32 (causePos frame)) sp ::
    .csrw .mepc 15 ::
    .csrw .mcause 5 ::
    (loadTrap frame ++ [.addi sp sp (BitVec.ofNat 32 (saveCount frame * width)), .mret])

/-- The registers a wrapper saves: its own scratch registers are among them, the stack
pointer is not. -/
structure Frame where
  regs : List Reg
  distinct : regs.Nodup
  scratch : 1 ∈ regs ∧ 5 ∈ regs ∧ 10 ∈ regs ∧ 15 ∈ regs
  notSp : sp ∉ regs

theorem Frame.length_le (frame : Frame) : frame.regs.length ≤ 32 := by
  have bound := frame.distinct.length_le_card
  rwa [Fintype.card_fin] at bound

theorem Frame.ne_sp (frame : Frame) {reg : Reg} (listed : reg ∈ frame.regs) : sp ≠ reg := by
  rintro rfl
  exact frame.notSp listed

def Placed (fetch : Word → Option (Instr × Word)) : List Instr → Word → Prop
  | [], _ => True
  | instr :: rest, addr => ∃ next, fetch addr = some (instr, next) ∧ Placed fetch rest next

/-- A linked program: one entry for each interrupt, and the routine they share. Elsewhere,
handlers included, `fetch` is silent: that code is not modelled by its instructions. -/
structure Image (ι : Type) (frame : Frame) where
  fetch : Word → Option (Instr × Word)
  startTrap : ι → Word
  interrupt : ι → Word
  high : ι → Word
  continueNestedTrap : Word
  entryPlaced : ∀ irq, Placed fetch
    (generateNestedTrapEntry frame.regs (interrupt irq) (high irq) continueNestedTrap)
    (startTrap irq)
  continuePlaced : Placed fetch (generateContinueNestedTrapImpl frame.regs) continueNestedTrap
  interruptEven : ∀ irq, interrupt irq &&& ~~~1 = interrupt irq
  interruptOutside : ∀ irq, fetch (interrupt irq) = none

variable {ι : Type} {frame : Frame}

def Image.step (image : Image ι frame) (hart : Hart) : Option Hart :=
  match image.fetch hart.pc with
  | some (instr, next) => exec instr next hart
  | none => none

def Image.returnAddr (image : Image ι frame) : Word :=
  match image.fetch image.continueNestedTrap with
  | some (_, next) => next
  | none => 0

/-! The code assembled without compression, the entry at 0x1000 and the shared routine at
0x2000. -/

def listing (base : Word) (code : List Instr) (pc : Word) : Option (Instr × Word) :=
  if (pc - base).toNat % 4 = 0 then
    code[(pc - base).toNat / 4]?.map fun instr => (instr, pc + 4)
  else none

theorem listing_slot (base : Word) (code : List Instr) {index : Nat} (fits : index < 2 ^ 29) :
    listing base code (slot base index) =
      code[index]?.map fun instr => (instr, slot base (index + 1)) := by
  have offset : (slot base index - base).toNat = 4 * index := by
    rw [slot, add_sub_cancel_left, BitVec.toNat_ofNat]
    omega
  have behind : slot base index + 4 = slot base (index + 1) := by
    rw [slot, slot, Nat.mul_add, BitVec.ofNat_add, add_assoc]
    rfl
  rw [listing, offset, if_pos (by omega), behind, Nat.mul_div_cancel_left index (by omega)]

theorem listing_none (base : Word) (code : List Instr) {pc : Word}
    (beyond : 4 * code.length ≤ (pc - base).toNat) : listing base code pc = none := by
  unfold listing
  split
  · rw [List.getElem?_eq_none (by omega), Option.map_none]
  · rfl

theorem placed_listing {fetch : Word → Option (Instr × Word)} (base : Word)
    (code rest : List Instr) (fits : code.length < 2 ^ 29) (start : Nat)
    (suffix : ∀ index, code[start + index]? = rest[index]?)
    (found : ∀ index, index < code.length →
      fetch (slot base index) = listing base code (slot base index)) :
    Placed fetch rest (slot base start) := by
  induction rest generalizing start with
  | nil => trivial
  | cons instr rest ih =>
      have here : code[start]? = some instr := suffix 0
      have early : start < code.length := (List.getElem?_eq_some_iff.mp here).1
      refine ⟨slot base (start + 1), ?_, ih (start + 1) fun index => ?_⟩
      · rw [found start early, listing_slot base code (by omega), here, Option.map_some]
      · rw [Nat.add_right_comm]
        exact suffix (index + 1)

def assembledEntry (frame : Frame) : List Instr :=
  generateNestedTrapEntry frame.regs 0x4000 0x3000 0x2000

def assembledFetch (frame : Frame) (pc : Word) : Option (Instr × Word) :=
  if pc.toNat < 0x2000 then listing 0x1000 (assembledEntry frame) pc
  else listing 0x2000 (generateContinueNestedTrapImpl frame.regs) pc

theorem assembledEntry_length (frame : Frame) : (assembledEntry frame).length ≤ 41 := by
  have bound := frame.length_le
  simp [assembledEntry, generateNestedTrapEntry, storeTrap]
  omega

theorem continueNestedTrap_length (frame : Frame) :
    (generateContinueNestedTrapImpl frame.regs).length ≤ 40 := by
  have bound := frame.length_le
  simp [generateContinueNestedTrapImpl, loadTrap]
  omega

theorem assembledFetch_beyond (frame : Frame) {pc : Word} (beyond : 0x3000 ≤ pc.toNat) :
    assembledFetch frame pc = none := by
  have short := continueNestedTrap_length frame
  have base : (0x2000 : Word).toNat = 0x2000 := rfl
  rw [assembledFetch, if_neg (by omega)]
  apply listing_none
  rw [BitVec.toNat_sub_of_le (BitVec.le_def.mpr (by omega)), base]
  omega

def assembled (frame : Frame) : Image Unit frame where
  fetch := assembledFetch frame
  startTrap _ := 0x1000
  interrupt _ := 0x4000
  high _ := 0x3000
  continueNestedTrap := 0x2000
  entryPlaced _ := by
    have short := assembledEntry_length frame
    apply placed_listing 0x1000 (assembledEntry frame) _ (by omega) 0
      (fun index => by rw [Nat.zero_add]; rfl)
    intro index early
    have low : (slot 0x1000 index).toNat < 0x2000 := by
      have base : (0x1000 : Word).toNat = 0x1000 := rfl
      rw [slot_toNat (by rw [base]; omega), base]
      omega
    rw [assembledFetch, if_pos low]
  continuePlaced := by
    have short := continueNestedTrap_length frame
    apply placed_listing 0x2000 (generateContinueNestedTrapImpl frame.regs) _ (by omega) 0
      (fun index => by rw [Nat.zero_add])
    intro index early
    have high : ¬(slot 0x2000 index).toNat < 0x2000 := by
      have base : (0x2000 : Word).toNat = 0x2000 := rfl
      rw [slot_toNat (by rw [base]; omega), base]
      omega
    rw [assembledFetch, if_neg high]
  interruptEven _ := by decide
  interruptOutside _ := assembledFetch_beyond frame (by decide)

-- `CALLER_SAVE_EABI`
def callerSaveEabi : List Reg := [1, 5, 10, 11, 12, 13, 15]

def callerSaveFrame : Frame where
  regs := callerSaveEabi
  distinct := by decide
  scratch := by decide
  notSp := by decide

end Atalanta.Trampoline
