import Atalanta.Trampoline.Emit
import Atalanta.Library.Preemption

/-! What the wrapper does from the trap to the call of the handler and from the handler's
return to `mret`, in any environment that tolerates the saved frame. -/

namespace Atalanta.Trampoline

open WordMemory Preemption

variable {ι : Type} {frame : Frame} {image : Image ι frame} {format : CauseFormat}

/-! Straight-line code -/

def effects (code : List Instr) (hart : Hart) : Hart :=
  code.foldl (fun before instr => instr.effect before) hart

@[simp] theorem effects_nil (hart : Hart) : effects [] hart = hart := rfl

@[simp] theorem effects_cons (instr : Instr) (rest : List Instr) (hart : Hart) :
    effects (instr :: rest) hart = effects rest (instr.effect hart) := rfl

theorem effects_append (code rest : List Instr) (hart : Hart) :
    effects (code ++ rest) hart = effects rest (effects code hart) :=
  List.foldl_append

theorem effects_goto (code : List Instr) (hart : Hart) (pc : Word) :
    effects code (hart.goto pc) = (effects code hart).goto pc := by
  induction code generalizing hart with
  | nil => rfl
  | cons instr rest ih => rw [effects_cons, effects_cons, Instr.effect_goto, ih]

theorem leads_silent {env : Environment Hart} {post : Hart → Prop}
    (quiet : ∀ {hart later}, hart.mie = false → env.may hart later → later = hart)
    (code rest : List Instr) (silent : ∀ instr ∈ code, instr.Silent) (hart : Hart)
    (off : hart.mie = false) (placed : Placed image.fetch (code ++ rest) hart.pc)
    (continues : ∀ addr, Placed image.fetch rest addr →
      Leads env image.step post ((effects code hart).goto addr)) :
    Leads env image.step post hart := by
  induction code generalizing hart with
  | nil => exact continues hart.pc placed
  | cons instr code ih =>
      obtain ⟨next, fetched, placed⟩ := placed
      have now : instr.Silent := silent instr List.mem_cons_self
      have moved : image.step hart = some ((instr.effect hart).goto next) := by
        rw [Image.step, fetched]
        exact now.exec_eq next hart
      apply Leads.of_quiet_step (fun later => quiet off) moved
      apply ih (fun other member => silent other (List.mem_cons_of_mem instr member))
      · rw [Hart.goto_mie, now.mie_eq, off]
      · exact placed
      · intro addr placed
        have arrived := continues addr placed
        rwa [effects_cons, ← Hart.goto_goto, ← effects_goto] at arrived

theorem effects_stores (regs : List Reg) (start : Nat) (hart : Hart) :
    effects ((regs.zipIdx start).map fun (reg, i) => .sw reg (BitVec.ofNat 32 (i * width)) sp)
      hart =
      hart.setMem (storeSlots (hart.get sp) (regs.map hart.get) start hart.mem) := by
  induction regs generalizing start hart with
  | nil => rfl
  | cons reg rest ih =>
      rw [List.zipIdx_cons, List.map_cons, effects_cons, ih]
      simp only [Instr.effect, Hart.get_setMem, List.map_cons, storeSlots, slot, width,
        Nat.mul_comm 4]
      rfl

theorem effects_loads (value : Reg → Word) (zero : value 0 = 0) (regs : List Reg) (start : Nat)
    (hart : Hart) (notSp : sp ∉ regs)
    (slots : ∀ index reg, regs[index]? = some reg →
      load hart.mem (slot (hart.get sp) (start + index)) = value reg) :
    ∃ loaded, effects ((regs.zipIdx start).map fun (reg, i) =>
        .lw reg (BitVec.ofNat 32 (i * width)) sp) hart = hart.setRegs loaded ∧
      (∀ reg ∈ regs, (hart.setRegs loaded).get reg = value reg) ∧
      ∀ reg, reg ∉ regs → (hart.setRegs loaded).get reg = hart.get reg := by
  induction regs generalizing start hart with
  | nil => exact ⟨hart.regs, rfl, by simp, fun _ _ => rfl⟩
  | cons reg rest ih =>
      have apart : sp ≠ reg := List.ne_of_not_mem_cons notSp
      have restNotSp : sp ∉ rest := List.not_mem_of_not_mem_cons notSp
      have first : load hart.mem (hart.get sp + BitVec.ofNat 32 (start * width)) = value reg := by
        have held := slots 0 reg rfl
        rwa [slot, Nat.add_zero, Nat.mul_comm] at held
      have base : (hart.set reg (value reg)).get sp = hart.get sp :=
        hart.get_set_other (value reg) apart
      obtain ⟨loaded, run, restored, kept⟩ := ih (start + 1) (hart.set reg (value reg)) restNotSp
        (by
          intro index other listed
          rw [base, Nat.add_right_comm]
          exact slots (index + 1) other listed)
      refine ⟨loaded, ?_, ?_, ?_⟩
      · rw [List.zipIdx_cons, List.map_cons, effects_cons, Instr.effect, first]
        exact run
      · intro other member
        by_cases later : other ∈ rest
        · exact restored other later
        · obtain rfl : other = reg := (List.mem_cons.mp member).resolve_right later
          refine (kept other later).trans ?_
          by_cases hardwired : other = 0
          · rw [hardwired, zero, Hart.get_zero]
          · exact hart.get_set_same _ hardwired
      · intro other outside
        have later : other ∉ rest := List.not_mem_of_not_mem_cons outside
        exact (kept other later).trans (hart.get_set_other _ (List.ne_of_not_mem_cons outside))

/-! The frame -/

def frameBytes (frame : Frame) : Nat := saveCount frame.regs * width

def frameBase (frame : Frame) (interrupted : Hart) : Word :=
  interrupted.get sp - BitVec.ofNat 32 (frameBytes frame)

/-- The memory holds the frame of an interrupted state, and the bytes to keep besides. -/
structure Saved (frame : Frame) (format : CauseFormat) (keep : Word → Prop) (interrupted : Hart)
    (mem : Memory) : Prop where
  regs : ∀ index reg, frame.regs[index]? = some reg →
    load mem (slot (frameBase frame interrupted) index) = interrupted.get reg
  level : format.level (load mem (slot (frameBase frame interrupted) frame.regs.length)) =
    interrupted.level
  mie : format.mie (load mem (slot (frameBase frame interrupted) frame.regs.length)) =
    interrupted.mie
  epc : load mem (slot (frameBase frame interrupted) (frame.regs.length + 1)) = interrupted.pc
  kept : ∀ byte, keep byte → mem byte = interrupted.mem byte

theorem Saved.congr {keep : Word → Prop} {interrupted : Hart} {left right : Memory}
    (saved : Saved frame format keep interrupted left)
    (frameSame : ∀ byte, (byte - frameBase frame interrupted).toNat < frameBytes frame →
      right byte = left byte)
    (keptSame : ∀ byte, keep byte → right byte = left byte) :
    Saved frame format keep interrupted right := by
  have fits := frame.length_le
  have slots (index : Nat) (inFrame : index < frame.regs.length + 2) :
      load right (slot (frameBase frame interrupted) index) =
        load left (slot (frameBase frame interrupted) index) := by
    apply load_slot_congr (by omega)
    intro byte _ high
    apply frameSame
    unfold frameBytes saveCount width
    omega
  constructor
  · intro index reg listed
    have early : index < frame.regs.length := (List.getElem?_eq_some_iff.mp listed).1
    rw [slots index (by omega)]
    exact saved.regs index reg listed
  · rw [slots _ (by omega), saved.level]
  · rw [slots _ (by omega), saved.mie]
  · rw [slots _ (by omega), saved.epc]
  · intro byte keeps
    rw [keptSame byte keeps, saved.kept byte keeps]

/-- The environment waits while interrupts are off, and else changes nothing but CSRs and
memory outside the frame. -/
structure Tolerates (env : Environment Hart) (frame : Frame) (format : CauseFormat)
    (keep : Word → Prop) (interrupted : Hart) : Prop where
  quiet : ∀ {hart later}, hart.mie = false → env.may hart later → later = hart
  pc : ∀ {hart later}, env.may hart later → later.pc = hart.pc
  get : ∀ {hart later}, env.may hart later → ∀ reg, later.get reg = hart.get reg
  mie : ∀ {hart later}, env.may hart later → later.mie = hart.mie
  saved : ∀ {hart later}, env.may hart later → hart.get sp = frameBase frame interrupted →
    Saved frame format keep interrupted hart.mem → Saved frame format keep interrupted later.mem

/-- At `pc`, with the frame on the stack; the registers outside it have the values `others`. -/
structure Inside (frame : Frame) (format : CauseFormat) (keep : Word → Prop) (interrupted : Hart)
    (others : Reg → Word) (pc : Word) (hart : Hart) : Prop where
  pc_eq : hart.pc = pc
  base : hart.get sp = frameBase frame interrupted
  saved : Saved frame format keep interrupted hart.mem
  others_eq : ∀ reg, reg ∉ frame.regs → reg ≠ sp → hart.get reg = others reg

section

variable {env : Environment Hart} {keep : Word → Prop} {interrupted : Hart} {others : Reg → Word}
  {pc : Word} {hart later : Hart}

theorem Inside.disturbed (inside : Inside frame format keep interrupted others pc hart)
    (tolerates : Tolerates env frame format keep interrupted) (disturbs : env.may hart later) :
    Inside frame format keep interrupted others pc later where
  pc_eq := (tolerates.pc disturbs).trans inside.pc_eq
  base := (tolerates.get disturbs sp).trans inside.base
  saved := tolerates.saved disturbs inside.base inside.saved
  others_eq reg outside notSp :=
    (tolerates.get disturbs reg).trans (inside.others_eq reg outside notSp)

theorem Inside.set (inside : Inside frame format keep interrupted others pc hart) {reg : Reg}
    (scratch : reg ∈ frame.regs) (value next : Word) :
    Inside frame format keep interrupted others next ((hart.set reg value).goto next) where
  pc_eq := rfl
  base := (hart.get_set_other value (frame.ne_sp scratch)).trans inside.base
  saved := inside.saved
  others_eq other outside notSp := by
    have apart : other ≠ reg := by
      rintro rfl
      exact outside scratch
    exact (hart.get_set_other value apart).trans (inside.others_eq other outside notSp)

theorem Inside.goto (inside : Inside frame format keep interrupted others pc hart) (next : Word) :
    Inside frame format keep interrupted others next (hart.goto next) :=
  ⟨rfl, inside.base, inside.saved, inside.others_eq⟩

structure Called (image : Image ι frame) (format : CauseFormat) (keep : Word → Prop)
    (interrupted : Hart) (irq : ι) (hart : Hart) : Prop where
  inside : Inside frame format keep interrupted interrupted.get (image.interrupt irq) hart
  ra : hart.get 1 = image.returnAddr
  enabled : hart.mie = true

theorem Called.disturbed {irq : ι} (called : Called image format keep interrupted irq hart)
    (tolerates : Tolerates env frame format keep interrupted) (disturbs : env.may hart later) :
    Called image format keep interrupted irq later where
  inside := called.inside.disturbed tolerates disturbs
  ra := (tolerates.get disturbs 1).trans called.ra
  enabled := (tolerates.mie disturbs).trans called.enabled

theorem Inside.leads_step {post : Hart → Prop} {instr : Instr} {next : Word}
    (tolerates : Tolerates env frame format keep interrupted)
    (inside : Inside frame format keep interrupted others pc hart)
    (fetched : image.fetch pc = some (instr, next))
    (rest : ∀ now, Inside frame format keep interrupted others pc now →
      (∀ reg, now.get reg = hart.get reg) → now.mie = hart.mie →
      ∃ after, exec instr next now = some after ∧ Leads env image.step post after) :
    Leads env image.step post hart := by
  apply Leads.of_step
  intro now disturbs
  have still := inside.disturbed tolerates disturbs
  obtain ⟨after, executes, leads⟩ := rest now still (tolerates.get disturbs)
    (tolerates.mie disturbs)
  refine ⟨after, ?_, leads⟩
  rw [Image.step, still.pc_eq, fetched]
  exact executes

theorem call_leads (tolerates : Tolerates env frame format keep interrupted) (irq : ι)
    (placed : Placed image.fetch [.auipc 10 (image.high irq),
      .addi 10 10 (image.interrupt irq - image.high irq), .j image.continueNestedTrap] pc)
    (inside : Inside frame format keep interrupted interrupted.get pc hart)
    (enabled : hart.mie = true) :
    Leads env image.step (Called image format keep interrupted irq) hart := by
  obtain ⟨raSaved, _, a0Saved, _⟩ := frame.scratch
  obtain ⟨second, upper, third, lower, fourth, jump, _⟩ := placed
  obtain ⟨behind, call, _⟩ := image.continuePlaced
  have returns : image.returnAddr = behind := by simp only [Image.returnAddr, call]
  apply inside.leads_step tolerates upper
  intro first inFirst _ onFirst
  refine ⟨_, rfl, (inFirst.set a0Saved _ second).leads_step tolerates lower ?_⟩
  intro halfway inHalfway getHalfway onHalfway
  refine ⟨_, rfl, (inHalfway.set a0Saved _ third).leads_step tolerates jump ?_⟩
  intro ready inReady getReady onReady
  refine ⟨_, rfl, (inReady.goto image.continueNestedTrap).leads_step tolerates call ?_⟩
  intro calling inCalling getCalling onCalling
  have upperHalf : halfway.get 10 = image.high irq :=
    (getHalfway 10).trans (first.get_set_same _ (by decide))
  have handler : calling.get 10 = image.interrupt irq :=
    calc calling.get 10 = ready.get 10 := getCalling 10
      _ = halfway.get 10 + (image.interrupt irq - image.high irq) :=
        (getReady 10).trans (halfway.get_set_same _ (by decide))
      _ = image.interrupt irq := by rw [upperHalf, add_sub_cancel]
  have target : (calling.get 10 + 0) &&& ~~~1 = image.interrupt irq := by
    rw [add_zero, handler, image.interruptEven irq]
  refine ⟨_, rfl, Leads.of_stable fun last disturbs => Called.disturbed ?_ tolerates disturbs⟩
  rw [target]
  refine ⟨inCalling.set raSaved behind _, ?_, ?_⟩
  · rw [returns]
    exact calling.get_set_same behind (by decide)
  · exact onCalling.trans (onReady.trans (onHalfway.trans (onFirst.trans enabled)))

def saveFrame (frame : List Reg) : List Instr :=
  .addi sp sp (-BitVec.ofNat 32 (saveCount frame * width)) ::
    (storeTrap frame ++ [
      .csrr 5 .mcause,
      .csrr 15 .mepc,
      .sw 5 (BitVec.ofNat 32 (causePos frame)) sp,
      .sw 15 (BitVec.ofNat 32 (epcPos frame)) sp])

theorem saveFrame_silent (frame : List Reg) : ∀ instr ∈ saveFrame frame, instr.Silent := by
  intro instr member
  simp only [saveFrame, storeTrap, List.mem_cons, List.mem_append, List.mem_map,
    List.not_mem_nil, or_false] at member
  rcases member with rfl | ⟨⟨reg, i⟩, _, rfl⟩ | rfl | rfl | rfl | rfl <;> trivial

theorem slot_causePos (frame : Frame) (base : Word) :
    base + BitVec.ofNat 32 (causePos frame.regs) = slot base frame.regs.length := by
  rw [slot, causePos, Nat.mul_comm]

theorem slot_epcPos (frame : Frame) (base : Word) :
    base + BitVec.ofNat 32 (epcPos frame.regs) = slot base (frame.regs.length + 1) := by
  rw [slot, epcPos, Nat.mul_comm]

def frameMem (frame : Frame) (base : Word) (hart : Hart) : Memory :=
  store (store (storeSlots base (frame.regs.map (hart.set sp base).get) 0 hart.mem)
    (slot base frame.regs.length) hart.mcause) (slot base (frame.regs.length + 1)) hart.mepc

theorem effects_saveFrame (frame : Frame) (hart : Hart) :
    effects (saveFrame frame.regs) hart =
      ((((hart.set sp (hart.get sp - BitVec.ofNat 32 (frameBytes frame))).set 5 hart.mcause).set 15
        hart.mepc).setMem
          (frameMem frame (hart.get sp - BitVec.ofNat 32 (frameBytes frame)) hart)) := by
  rw [saveFrame, effects_cons, effects_append, storeTrap, effects_stores]
  have base : hart.get sp + -BitVec.ofNat 32 (saveCount frame.regs * width) =
      hart.get sp - BitVec.ofNat 32 (frameBytes frame) := (sub_eq_add_neg _ _).symm
  simp only [Instr.effect, base]
  generalize hart.get sp - BitVec.ofNat 32 (frameBytes frame) = low
  have lowered : (hart.set sp low).get sp = low := rfl
  rw [lowered]
  simp only [effects_cons, effects_nil, Instr.effect]
  rw [frameMem, ← slot_causePos, ← slot_epcPos]
  rfl

theorem frameMem_saved (code : Word)
    (keepApart : ∀ byte, keep byte →
      frameBytes frame ≤ (byte - frameBase frame interrupted).toNat)
    (trapped : ∀ reg, hart.get reg = interrupted.get reg) (mem : hart.mem = interrupted.mem)
    (mepc : hart.mepc = interrupted.pc)
    (mcause : hart.mcause = format.save code interrupted.level interrupted.mie) :
    Saved frame format keep interrupted
      (frameMem frame (frameBase frame interrupted) hart) := by
  have fits := frame.length_le
  have lengthEq : (frame.regs.map (hart.set sp (frameBase frame interrupted)).get).length =
      frame.regs.length := List.length_map ..
  have cause : load (frameMem frame (frameBase frame interrupted) hart)
      (slot (frameBase frame interrupted) frame.regs.length) = hart.mcause := by
    rw [frameMem, load_store_slot _ _ _ (by omega) (by omega) (by omega), load_store_same]
  constructor
  · intro index reg listed
    have inFrame : reg ∈ frame.regs := List.mem_of_getElem? listed
    have early : index < frame.regs.length := (List.getElem?_eq_some_iff.mp listed).1
    have stored : (frame.regs.map (hart.set sp (frameBase frame interrupted)).get)[index]? =
        some (interrupted.get reg) := by
      rw [List.getElem?_map, listed, Option.map_some,
        hart.get_set_other _ (frame.ne_sp inFrame).symm, trapped]
    have held := load_storeSlots (frameBase frame interrupted) _ 0 hart.mem (by omega) stored
    rw [Nat.zero_add] at held
    rw [frameMem, load_store_slot _ _ _ (by omega) (by omega) (by omega),
      load_store_slot _ _ _ (by omega) (by omega) (by omega), held]
  · rw [cause, mcause, format.level_save]
  · rw [cause, mcause, format.mie_save]
  · rw [frameMem, load_store_same, mepc]
  · intro byte keeps
    have above := keepApart byte keeps
    unfold frameBytes saveCount width at above
    rw [frameMem, store_slot_outside _ _ (by omega) (by omega),
      store_slot_outside _ _ (by omega) (by omega),
      storeSlots_outside _ _ _ _ (by omega) (by omega), mem]

theorem entry_leads (tolerates : Tolerates env frame format keep interrupted) (irq : ι)
    (code : Word) (level : BitVec 8)
    (keepApart : ∀ byte, keep byte →
      frameBytes frame ≤ (byte - frameBase frame interrupted).toNat) :
    Leads env image.step (Called image format keep interrupted irq)
      (interrupted.takeTrap format (image.startTrap irq) code level) := by
  obtain ⟨_, t0Saved, _, a5Saved⟩ := frame.scratch
  have placed : Placed image.fetch (saveFrame frame.regs ++ (.csrsi .mstatus 8 ::
      [.auipc 10 (image.high irq), .addi 10 10 (image.interrupt irq - image.high irq),
        .j image.continueNestedTrap])) (image.startTrap irq) := by
    have whole := image.entryPlaced irq
    rw [generateNestedTrapEntry] at whole
    rw [saveFrame, List.cons_append, List.append_assoc]
    exact whole
  apply leads_silent tolerates.quiet _ _ (saveFrame_silent frame.regs) _ rfl placed
  rintro addr ⟨next, fetched, rest⟩
  rw [effects_saveFrame]
  apply Leads.of_quiet_step (fun later => tolerates.quiet rfl)
  · rw [Image.step, Hart.goto_pc, fetched]
    rfl
  · refine call_leads tolerates irq rest ⟨rfl, rfl, ?_, ?_⟩ (csrsi_mie _)
    · exact frameMem_saved code keepApart (fun _ => rfl) rfl rfl rfl
    · intro reg outside notSp
      have notT0 : reg ≠ 5 := by
        rintro rfl
        exact outside t0Saved
      have notA5 : reg ≠ 15 := by
        rintro rfl
        exact outside a5Saved
      exact ((Hart.get_set_other _ _ notA5).trans (Hart.get_set_other _ _ notT0)).trans
        (Hart.get_set_other _ _ notSp)

def restoreFrame (frame : List Reg) : List Instr :=
  .lw 15 (BitVec.ofNat 32 (epcPos frame)) sp ::
    .lw 5 (BitVec.ofNat 32 (causePos frame)) sp ::
    .csrw .mepc 15 ::
    .csrw .mcause 5 ::
    (loadTrap frame ++ [.addi sp sp (BitVec.ofNat 32 (saveCount frame * width))])

theorem restoreFrame_silent (frame : List Reg) : ∀ instr ∈ restoreFrame frame, instr.Silent := by
  intro instr member
  simp only [restoreFrame, loadTrap, List.mem_cons, List.mem_append, List.mem_map,
    List.not_mem_nil, or_false] at member
  rcases member with rfl | rfl | rfl | rfl | ⟨⟨reg, i⟩, _, rfl⟩ | rfl
  · trivial
  · trivial
  · exact Csr.noConfusion
  · exact Csr.noConfusion
  · trivial
  · trivial

structure Restoring (frame : Frame) (format : CauseFormat) (keep : Word → Prop)
    (interrupted : Hart) (others : Reg → Word) (hart : Hart) : Prop where
  sp_eq : hart.get sp = interrupted.get sp
  regs : ∀ reg ∈ frame.regs, hart.get reg = interrupted.get reg
  others_eq : ∀ reg, reg ∉ frame.regs → reg ≠ sp → hart.get reg = others reg
  mepc : hart.mepc = interrupted.pc
  level : format.level hart.mcause = interrupted.level
  mie : format.mie hart.mcause = interrupted.mie
  kept : ∀ byte, keep byte → hart.mem byte = interrupted.mem byte
  off : hart.mie = false

def restoreCsrs (hart : Hart) (epc cause : Word) : Hart :=
  { (hart.set 15 epc).set 5 cause with
    mepc := epc
    mcause := cause }

theorem effects_restoreCsrs (epc cause : Word) (rest : List Instr)
    (epcLoaded : load hart.mem (hart.get sp + BitVec.ofNat 32 (epcPos frame.regs)) = epc)
    (causeLoaded : load hart.mem (hart.get sp + BitVec.ofNat 32 (causePos frame.regs)) = cause) :
    effects (.lw 15 (BitVec.ofNat 32 (epcPos frame.regs)) sp ::
        .lw 5 (BitVec.ofNat 32 (causePos frame.regs)) sp ::
        .csrw .mepc 15 :: .csrw .mcause 5 :: rest) hart =
      effects rest (restoreCsrs hart epc cause) := by
  have unmoved : (hart.set 15 epc).get sp = hart.get sp := rfl
  simp only [effects_cons, Instr.effect, epcLoaded, unmoved, Hart.set_mem, causeLoaded]
  rfl

theorem effects_restoreFrame (inside : Inside frame format keep interrupted others pc hart)
    (off : hart.mie = false) :
    Restoring frame format keep interrupted others (effects (restoreFrame frame.regs) hart) := by
  obtain ⟨_, t0Saved, _, a5Saved⟩ := frame.scratch
  obtain ⟨_, base, saved, outside⟩ := inside
  have epcLoaded : load hart.mem (hart.get sp + BitVec.ofNat 32 (epcPos frame.regs)) =
      interrupted.pc := by
    rw [slot_epcPos, base, saved.epc]
  rw [restoreFrame, effects_restoreCsrs interrupted.pc _ _ epcLoaded rfl, slot_causePos, base]
  have unmoved (cause : Word) : (restoreCsrs hart interrupted.pc cause).get sp =
      frameBase frame interrupted := base
  generalize causeEq : load hart.mem (slot (frameBase frame interrupted) frame.regs.length) =
    cause
  obtain ⟨loaded, run, restored, kept⟩ := effects_loads interrupted.get rfl frame.regs 0
    (restoreCsrs hart interrupted.pc cause) frame.notSp (by
      intro index reg listed
      rw [unmoved, Nat.zero_add]
      exact saved.regs index reg listed)
  rw [effects_append, loadTrap, run, effects_cons, effects_nil, Instr.effect, kept sp frame.notSp,
    unmoved]
  have freed : frameBase frame interrupted + BitVec.ofNat 32 (saveCount frame.regs * width) =
      interrupted.get sp := sub_add_cancel _ _
  rw [freed]
  constructor
  · exact Hart.get_set_same _ _ (by decide)
  · intro reg inFrame
    exact (Hart.get_set_other _ _ (frame.ne_sp inFrame).symm).trans (restored reg inFrame)
  · intro reg notSaved notSp
    have notT0 : reg ≠ 5 := by
      rintro rfl
      exact notSaved t0Saved
    have notA5 : reg ≠ 15 := by
      rintro rfl
      exact notSaved a5Saved
    calc _ = (restoreCsrs hart interrupted.pc cause).get reg :=
          (Hart.get_set_other _ _ notSp).trans (kept reg notSaved)
      _ = hart.get reg := (Hart.get_set_other _ _ notT0).trans (Hart.get_set_other _ _ notA5)
      _ = others reg := outside reg notSaved notSp
  · rfl
  · exact causeEq ▸ saved.level
  · exact causeEq ▸ saved.mie
  · exact saved.kept
  · exact off

theorem exit_leads (tolerates : Tolerates env frame format keep interrupted)
    (inside : Inside frame format keep interrupted others image.returnAddr hart) :
    Leads env image.step (fun last => (∃ next, image.fetch last.pc = some (.mret, next)) ∧
      Restoring frame format keep interrupted others last) hart := by
  obtain ⟨behind, call, next, disable, rest⟩ := image.continuePlaced
  have returns : image.returnAddr = behind := by simp only [Image.returnAddr, call]
  have placed : Placed image.fetch (restoreFrame frame.regs ++ [.mret]) next := by
    rw [restoreFrame, List.cons_append, List.cons_append, List.cons_append, List.cons_append,
      List.append_assoc]
    exact rest
  rw [returns] at inside
  apply inside.leads_step tolerates disable
  intro now inNow _ _
  refine ⟨_, rfl, ?_⟩
  have off : (((Instr.csrci .mstatus 8).effect now).goto next).mie = false := csrci_mie now
  apply leads_silent tolerates.quiet _ _ (restoreFrame_silent frame.regs) _ off placed
  rintro addr ⟨last, mret, _⟩
  have disabled : Inside frame format keep interrupted others next
      (((Instr.csrci .mstatus 8).effect now).goto next) :=
    ⟨rfl, inNow.base, inNow.saved, inNow.others_eq⟩
  have restoring := effects_restoreFrame disabled off
  apply Leads.of_stable
  intro later disturbs
  have same : later = (effects (restoreFrame frame.regs)
      (((Instr.csrci .mstatus 8).effect now).goto next)).goto addr :=
    tolerates.quiet restoring.off disturbs
  rw [same]
  exact ⟨⟨last, mret⟩, restoring.sp_eq, restoring.regs, restoring.others_eq, restoring.mepc,
    restoring.level, restoring.mie, restoring.kept, restoring.off⟩

end

end Atalanta.Trampoline
