import Atalanta.Library.WordMemory
import Mathlib

/-! The hart as the trap wrappers see it: the general-purpose registers, the memory, the
trap CSRs, the interrupt level and enable, and the instructions the wrappers consist of. -/

namespace Atalanta.Trampoline

open WordMemory

abbrev Word := BitVec 32
abbrev Reg := Fin 32

instance neZero_regs : NeZero 32 := ⟨by decide⟩

def sp : Reg := 2

inductive Csr
  | mstatus
  | mepc
  | mcause
deriving DecidableEq, Repr

structure Hart where
  pc : Word
  regs : Reg → Word
  mem : Memory
  mepc : Word
  mcause : Word
  mie : Bool
  level : BitVec 8

def Hart.get (hart : Hart) (reg : Reg) : Word := if reg = 0 then 0 else hart.regs reg

@[simps -fullyApplied]
def Hart.set (hart : Hart) (reg : Reg) (value : Word) : Hart :=
  { hart with regs := fun other => if other = reg then value else hart.regs other }

@[simps -fullyApplied]
def Hart.goto (hart : Hart) (pc : Word) : Hart := { hart with pc := pc }

@[simps -fullyApplied]
def Hart.setMem (hart : Hart) (mem : Memory) : Hart := { hart with mem := mem }

@[simps -fullyApplied]
def Hart.setRegs (hart : Hart) (regs : Reg → Word) : Hart := { hart with regs := regs }

@[simp] theorem Hart.get_zero (hart : Hart) : hart.get 0 = 0 := rfl

@[simp] theorem Hart.get_goto (hart : Hart) (pc : Word) (reg : Reg) :
    (hart.goto pc).get reg = hart.get reg := rfl

@[simp] theorem Hart.goto_goto (hart : Hart) (first second : Word) :
    (hart.goto first).goto second = hart.goto second := rfl

@[simp] theorem Hart.get_setMem (hart : Hart) (mem : Memory) (reg : Reg) :
    (hart.setMem mem).get reg = hart.get reg := rfl

theorem Hart.get_set_same (hart : Hart) {reg : Reg} (value : Word) (writable : reg ≠ 0) :
    (hart.set reg value).get reg = value := by
  simp [Hart.get, writable]

theorem Hart.get_set_other (hart : Hart) {reg other : Reg} (value : Word)
    (apart : other ≠ reg) : (hart.set reg value).get other = hart.get other := by
  simp [Hart.get, apart]

-- bit 3 is the only bit of `mstatus` that the model keeps
def Hart.readCsr (hart : Hart) : Csr → Word
  | .mstatus => if hart.mie then 8 else 0
  | .mepc => hart.mepc
  | .mcause => hart.mcause

def Hart.writeCsr (hart : Hart) (csr : Csr) (value : Word) : Hart :=
  match csr with
  | .mstatus => { hart with mie := value.getLsbD 3 }
  | .mepc => { hart with mepc := value }
  | .mcause => { hart with mcause := value }

inductive Instr
  | addi (rd rs : Reg) (imm : Word)
  | sw (rs : Reg) (offset : Word) (base : Reg)
  | lw (rd : Reg) (offset : Word) (base : Reg)
  | csrr (rd : Reg) (csr : Csr)
  | csrw (csr : Csr) (rs : Reg)
  | csrsi (csr : Csr) (imm : Word)
  | csrci (csr : Csr) (imm : Word)
  -- the first half of `la`, with its pc-relative value resolved
  | auipc (rd : Reg) (value : Word)
  | j (target : Word)
  | jalr (rd rs : Reg) (imm : Word)
  | mret
deriving DecidableEq, Repr

def Instr.effect (instr : Instr) (hart : Hart) : Hart :=
  match instr with
  | .addi rd rs imm => hart.set rd (hart.get rs + imm)
  | .sw rs offset base => hart.setMem (store hart.mem (hart.get base + offset) (hart.get rs))
  | .lw rd offset base => hart.set rd (load hart.mem (hart.get base + offset))
  | .csrr rd csr => hart.set rd (hart.readCsr csr)
  | .csrw csr rs => hart.writeCsr csr (hart.get rs)
  | .csrsi csr imm => hart.writeCsr csr (hart.readCsr csr ||| imm)
  | .csrci csr imm => hart.writeCsr csr (hart.readCsr csr &&& ~~~imm)
  | .auipc rd value => hart.set rd value
  | .j _ | .jalr _ _ _ | .mret => hart

/-- One instruction of the wrappers; `next` is the address behind it. The return from the
trap is not one of them, it belongs to the trap mechanism. -/
def exec (instr : Instr) (next : Word) (hart : Hart) : Option Hart :=
  match instr with
  | .j target => some (hart.goto target)
  | .jalr rd rs imm => some ((hart.set rd next).goto ((hart.get rs + imm) &&& ~~~1))
  | .mret => none
  | _ => some ((instr.effect hart).goto next)

def Instr.Silent : Instr → Prop
  | .addi _ _ _ | .sw _ _ _ | .lw _ _ _ | .csrr _ _ | .auipc _ _ => True
  | .csrw csr _ => csr ≠ .mstatus
  | _ => False

theorem Instr.Silent.exec_eq {instr : Instr} (silent : instr.Silent) (next : Word) (hart : Hart) :
    exec instr next hart = some ((instr.effect hart).goto next) := by
  cases instr <;> first | rfl | exact absurd silent id

theorem Instr.Silent.mie_eq {instr : Instr} (silent : instr.Silent) (hart : Hart) :
    (instr.effect hart).mie = hart.mie := by
  cases instr with
  | csrw csr rs =>
      cases csr with
      | mstatus => exact absurd rfl silent
      | mepc => rfl
      | mcause => rfl
  | _ => first | rfl | exact absurd silent id

theorem Instr.effect_goto (instr : Instr) (hart : Hart) (pc : Word) :
    instr.effect (hart.goto pc) = (instr.effect hart).goto pc := by
  cases instr with
  | csrw csr rs => cases csr <;> rfl
  | csrsi csr imm => cases csr <;> rfl
  | csrci csr imm => cases csr <;> rfl
  | _ => rfl

theorem csrsi_mie (hart : Hart) : ((Instr.csrsi .mstatus 8).effect hart).mie = true := by
  simp only [Instr.effect, Hart.writeCsr, Hart.readCsr]
  cases hart.mie <;> rfl

theorem csrci_mie (hart : Hart) : ((Instr.csrci .mstatus 8).effect hart).mie = false := by
  simp only [Instr.effect, Hart.writeCsr, Hart.readCsr]
  cases hart.mie <;> rfl

structure CauseFormat where
  save : (code : Word) → (level : BitVec 8) → (mie : Bool) → Word
  level : Word → BitVec 8
  mie : Word → Bool
  level_save : ∀ code previous enabled, level (save code previous enabled) = previous
  mie_save : ∀ code previous enabled, mie (save code previous enabled) = enabled

/-- The CLIC's layout: interrupt, privilege, enable, level and exception code. -/
def clicCause : CauseFormat where
  save code level mie :=
    (0b1011 : BitVec 4) ++ BitVec.ofBool mie ++ (0 : BitVec 3) ++ level ++ (0 : BitVec 4) ++
      code.setWidth 12
  level cause := cause.extractLsb' 16 8
  mie cause := cause.getLsbD 27
  level_save code level mie := by
    apply BitVec.eq_of_getLsbD_eq
    intro bit within
    rw [BitVec.getLsbD_extractLsb', decide_eq_true within, Bool.true_and]
    refine BitVec.getLsbD_append.trans ?_
    rw [if_neg (by omega), BitVec.getLsbD_append, if_neg (by omega), BitVec.getLsbD_append,
      if_pos (by omega), show 16 + bit - 12 - 4 = bit by omega]
  mie_save code level mie := by
    refine BitVec.getLsbD_append.trans ?_
    rw [if_neg (by omega), BitVec.getLsbD_append, if_neg (by omega), BitVec.getLsbD_append,
      if_neg (by omega), BitVec.getLsbD_append, if_neg (by omega), BitVec.getLsbD_append,
      if_pos (by omega)]
    simp

def Hart.takeTrap (hart : Hart) (format : CauseFormat) (vector code : Word) (level : BitVec 8) :
    Hart :=
  { hart with
    pc := vector
    mepc := hart.pc
    mcause := format.save code hart.level hart.mie
    mie := false
    level := level }

def Hart.mret (hart : Hart) (format : CauseFormat) : Hart :=
  { hart with
    pc := hart.mepc
    mie := format.mie hart.mcause
    level := format.level hart.mcause }

end Atalanta.Trampoline
