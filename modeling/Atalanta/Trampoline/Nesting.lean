import Atalanta.Trampoline.Wrapper

/-! Traps that preempt each other to any depth. The machine executes the wrappers by their
instructions; handlers and the interrupted program are arbitrary code under a contract. -/

namespace Atalanta.Trampoline

open WordMemory Preemption Relation

variable {ι : Type} {frame : Frame}

structure System (ι : Type) (frame : Frame) extends Image ι frame where
  format : CauseFormat
  body : Hart → Hart → Prop

structure Config where
  hart : Hart
  interrupted : List Hart

/-- One step of the machine. A trap preempts any instruction while interrupts are enabled
and at least `room` bytes of stack are left. -/
inductive System.Step (system : System ι frame) (room : Nat) : Config → Config → Prop
  | wrapper {hart after : Hart} {stack : List Hart} : system.step hart = some after →
      Step system room ⟨hart, stack⟩ ⟨after, stack⟩
  | body {hart after : Hart} {stack : List Hart} : system.fetch hart.pc = none →
      system.body hart after → Step system room ⟨hart, stack⟩ ⟨after, stack⟩
  | trap {hart : Hart} {stack : List Hart} (irq : ι) (code : Word) (level : BitVec 8) :
      hart.mie = true → room ≤ (hart.get sp).toNat →
      Step system room ⟨hart, stack⟩
        ⟨hart.takeTrap system.format (system.startTrap irq) code level, hart :: stack⟩
  | mret {hart : Hart} {stack : List Hart} {next : Word} :
      system.fetch hart.pc = some (.mret, next) →
      Step system room ⟨hart, stack⟩ ⟨hart.mret system.format, stack.tail⟩

structure Preempted (before after : Hart) : Prop where
  pc_eq : after.pc = before.pc
  get_eq : ∀ reg, after.get reg = before.get reg
  mie_eq : after.mie = before.mie
  level_eq : after.level = before.level
  mem_eq : ∀ byte, before.get sp ≤ byte → after.mem byte = before.mem byte

theorem Preempted.trans {first second third : Hart} (before : Preempted first second)
    (after : Preempted second third) : Preempted first third where
  pc_eq := after.pc_eq.trans before.pc_eq
  get_eq reg := (after.get_eq reg).trans (before.get_eq reg)
  mie_eq := after.mie_eq.trans before.mie_eq
  level_eq := after.level_eq.trans before.level_eq
  mem_eq byte above :=
    (after.mem_eq byte (before.get_eq sp ▸ above)).trans (before.mem_eq byte above)

def preemption (room : Nat) : Environment Hart where
  may before after := after = before ∨
    before.mie = true ∧ room ≤ (before.get sp).toNat ∧ Preempted before after
  refl _ := Or.inl rfl
  trans := by
    rintro first second third (rfl | ⟨enabled, space, before⟩) (rfl | ⟨_, _, after⟩)
    · exact Or.inl rfl
    · exact Or.inr ⟨by assumption, by assumption, after⟩
    · exact Or.inr ⟨enabled, space, before⟩
    · exact Or.inr ⟨enabled, space, before.trans after⟩

/-- The states a routine runs through, by its own steps and under preemption. -/
inductive System.Runs (system : System ι frame) (room : Nat) (start : Hart) : Hart → Prop
  | start : Runs system room start start
  | body {hart after : Hart} : Runs system room start hart → system.fetch hart.pc = none →
      system.body hart after → Runs system room start after
  | preempted {hart after : Hart} : Runs system room start hart →
      (preemption room).may hart after → Runs system room start after

/-- Back at the return address, with the stack pointer, the registers outside the frame and
the memory at or above the stack pointer as they were. -/
structure Returned (frame : Frame) (start hart : Hart) : Prop where
  pc_eq : hart.pc = start.get 1
  get_eq : ∀ reg, reg ∉ frame.regs → hart.get reg = start.get reg
  mem_eq : ∀ byte, start.get sp ≤ byte → hart.mem byte = start.mem byte

/-- The code outside the wrappers enters them only where handlers return. -/
structure System.Contracts (system : System ι frame) (room : Nat) (main : Hart) : Prop where
  handler : ∀ irq start, start.pc = system.interrupt irq → start.get 1 = system.returnAddr →
    start.mie = true → ∀ hart, system.Runs room start hart →
      system.fetch hart.pc = none ∨ Returned frame start hart
  main : ∀ hart, system.Runs room main hart → system.fetch hart.pc = none

structure Restored (interrupted hart : Hart) : Prop where
  pc_eq : hart.pc = interrupted.pc
  get_eq : ∀ reg, hart.get reg = interrupted.get reg
  level_eq : hart.level = interrupted.level
  mie_eq : hart.mie = interrupted.mie

/-! The stack of an interrupted program -/

section

variable {system : System ι frame} {room : Nat} {interrupted hart later : Hart}

def Above (interrupted : Hart) (byte : Word) : Prop := interrupted.get sp ≤ byte

theorem frameBase_toNat (space : frameBytes frame ≤ (interrupted.get sp).toNat) :
    (frameBase frame interrupted).toNat = (interrupted.get sp).toNat - frameBytes frame := by
  have bounded := (interrupted.get sp).isLt
  have size : (BitVec.ofNat 32 (frameBytes frame)).toNat = frameBytes frame :=
    Nat.mod_eq_of_lt (by omega)
  rw [frameBase, BitVec.toNat_sub_of_le (BitVec.le_def.mpr (by omega)), size]

theorem above_apart (space : frameBytes frame ≤ (interrupted.get sp).toNat) (byte : Word)
    (above : Above interrupted byte) :
    frameBytes frame ≤ (byte - frameBase frame interrupted).toNat := by
  have base : (frameBase frame interrupted).toNat = _ := frameBase_toNat space
  have order : (interrupted.get sp).toNat ≤ byte.toNat := BitVec.le_def.mp above
  rw [BitVec.toNat_sub_of_le (BitVec.le_def.mpr (by omega)), base]
  omega

theorem Saved.congr_above {format : CauseFormat} {left right : Memory}
    (saved : Saved frame format (Above interrupted) interrupted left)
    (space : frameBytes frame ≤ (interrupted.get sp).toNat)
    (same : ∀ byte, frameBase frame interrupted ≤ byte → right byte = left byte) :
    Saved frame format (Above interrupted) interrupted right := by
  have base : (frameBase frame interrupted).toNat = _ := frameBase_toNat space
  have bounded := (interrupted.get sp).isLt
  apply saved.congr
  · intro byte inFrame
    apply same
    rw [BitVec.toNat_sub] at inFrame
    rw [BitVec.le_def]
    omega
  · intro byte above
    have order : (interrupted.get sp).toNat ≤ byte.toNat := BitVec.le_def.mp above
    exact same byte (BitVec.le_def.mpr (by omega))

theorem preemption_tolerates (room : Nat) (format : CauseFormat)
    (space : frameBytes frame ≤ (interrupted.get sp).toNat) :
    Tolerates (preemption room) frame format (Above interrupted) interrupted where
  quiet off disturbs := by
    rcases disturbs with same | ⟨enabled, _⟩
    · exact same
    · rw [off] at enabled
      cases enabled
  pc disturbs := by
    rcases disturbs with rfl | ⟨_, _, preempted⟩
    · rfl
    · exact preempted.pc_eq
  get disturbs reg := by
    rcases disturbs with rfl | ⟨_, _, preempted⟩
    · rfl
    · exact preempted.get_eq reg
  mie disturbs := by
    rcases disturbs with rfl | ⟨_, _, preempted⟩
    · rfl
    · exact preempted.mie_eq
  saved disturbs base saved := by
    rcases disturbs with rfl | ⟨_, _, preempted⟩
    · exact saved
    · exact saved.congr_above space fun byte above => preempted.mem_eq byte (base ▸ above)

/-! Activations -/

def System.Handling (system : System ι frame) (room : Nat) (interrupted hart : Hart) : Prop :=
  ∃ irq start, Called system.toImage system.format (Above interrupted) interrupted irq start ∧
    system.Runs room start hart ∧ system.fetch hart.pc = none

def System.Returning (system : System ι frame) (interrupted hart : Hart) : Prop :=
  (∃ next, system.fetch hart.pc = some (.mret, next)) ∧
    Restoring frame system.format (Above interrupted) interrupted interrupted.get hart

/-- A state between the trap that interrupted another state and its `mret`: the wrapper leads
to the handler, the handler runs, or the wrapper leads to the return. -/
structure System.Active (system : System ι frame) (room : Nat) (interrupted hart : Hart) :
    Prop where
  enabled : interrupted.mie = true
  space : room ≤ (interrupted.get sp).toNat
  leads : Leads (preemption room) system.step (system.Handling room interrupted) hart ∨
    Leads (preemption room) system.step (system.Returning interrupted) hart

theorem System.Active.disturbed (active : system.Active room interrupted hart)
    (disturbs : (preemption room).may hart later) : system.Active room interrupted later where
  enabled := active.enabled
  space := active.space
  leads := active.leads.imp (fun leads => leads.disturbed disturbs)
    fun leads => leads.disturbed disturbs

theorem handling_leads (handling : system.Handling room interrupted hart) :
    Leads (preemption room) system.step (system.Handling room interrupted) hart := by
  obtain ⟨irq, start, called, runs, outside⟩ := handling
  apply Leads.of_stable
  intro later disturbs
  refine ⟨irq, start, called, runs.preempted disturbs, ?_⟩
  rcases disturbs with rfl | ⟨_, _, preempted⟩
  · exact outside
  · rw [preempted.pc_eq, outside]

theorem step_of_outside (outside : system.fetch hart.pc = none) : system.step hart = none := by
  rw [Image.step, outside]

theorem step_of_mret {next : Word} (atMret : system.fetch hart.pc = some (.mret, next)) :
    system.step hart = none := by
  rw [Image.step, atMret]
  rfl

theorem active_takeTrap (enough : frameBytes frame ≤ room) (irq : ι) (code : Word)
    (level : BitVec 8) (enabled : hart.mie = true) (space : room ≤ (hart.get sp).toNat) :
    system.Active room hart
      (hart.takeTrap system.format (system.startTrap irq) code level) where
  enabled := enabled
  space := space
  leads := by
    have fits : frameBytes frame ≤ (hart.get sp).toNat := enough.trans space
    have calls : Leads (preemption room) system.step
        (Called system.toImage system.format (Above hart) hart irq)
        (hart.takeTrap system.format (system.startTrap irq) code level) :=
      entry_leads (preemption_tolerates room system.format fits) irq code level (above_apart fits)
    refine Or.inl (calls.bind fun start called => handling_leads ?_)
    refine ⟨irq, start, called, .start, ?_⟩
    rw [called.inside.pc_eq]
    exact system.interruptOutside irq

theorem active_step (active : system.Active room interrupted hart)
    (moved : system.step hart = some later) : system.Active room interrupted later where
  enabled := active.enabled
  space := active.space
  leads := by
    rcases active.leads with leads | leads
    · rcases leads.advance moved with ⟨_, _, _, _, outside⟩ | rest
      · rw [step_of_outside outside] at moved
        cases moved
      · exact Or.inl rest
    · rcases leads.advance moved with ⟨⟨next, atMret⟩, _⟩ | rest
      · rw [step_of_mret atMret] at moved
        cases moved
      · exact Or.inr rest

theorem active_body {main : Hart} (enough : frameBytes frame ≤ room)
    (contracts : system.Contracts room main) (active : system.Active room interrupted hart)
    (outside : system.fetch hart.pc = none) (moved : system.body hart later) :
    system.Active room interrupted later where
  enabled := active.enabled
  space := active.space
  leads := by
    rcases active.leads with leads | leads
    · obtain ⟨irq, start, called, runs, _⟩ := leads.stuck (step_of_outside outside)
      have onward := runs.body outside moved
      rcases contracts.handler irq start called.inside.pc_eq called.ra called.enabled later onward
        with running | returned
      · exact Or.inl (handling_leads ⟨irq, start, called, onward, running⟩)
      · have fits : frameBytes frame ≤ (interrupted.get sp).toNat := enough.trans active.space
        have back : Inside frame system.format (Above interrupted) interrupted interrupted.get
            system.returnAddr later := by
          refine ⟨returned.pc_eq.trans called.ra,
            (returned.get_eq sp frame.notSp).trans called.inside.base, ?_, ?_⟩
          · exact called.inside.saved.congr_above fits fun byte above =>
              returned.mem_eq byte (called.inside.base ▸ above)
          · exact fun reg notSaved notSp =>
              (returned.get_eq reg notSaved).trans (called.inside.others_eq reg notSaved notSp)
        exact Or.inr (exit_leads (preemption_tolerates room system.format fits) back)
    · obtain ⟨⟨next, atMret⟩, _⟩ := leads.stuck (step_of_outside outside)
      rw [outside] at atMret
      cases atMret

theorem active_mret {next : Word} (active : system.Active room interrupted hart)
    (atMret : system.fetch hart.pc = some (.mret, next)) :
    Restored interrupted (hart.mret system.format) ∧
      (preemption room).may interrupted (hart.mret system.format) := by
  rcases active.leads with leads | leads
  · obtain ⟨_, _, _, _, outside⟩ := leads.stuck (step_of_mret atMret)
    rw [outside] at atMret
    cases atMret
  · obtain ⟨_, restoring⟩ := leads.stuck (step_of_mret atMret)
    have regs (reg : Reg) : (hart.mret system.format).get reg = interrupted.get reg := by
      by_cases saved : reg ∈ frame.regs
      · exact restoring.regs reg saved
      · by_cases stack : reg = sp
        · rw [stack]
          exact restoring.sp_eq
        · exact restoring.others_eq reg saved stack
    refine ⟨⟨restoring.mepc, regs, restoring.level, restoring.mie⟩, Or.inr ⟨active.enabled,
      active.space, ?_⟩⟩
    exact ⟨restoring.mepc, regs, restoring.mie, restoring.level, restoring.kept⟩

/-! Runs -/

def System.Nested (system : System ι frame) (room : Nat) (main : Hart) (config : Config) : Prop :=
  Chain (system.Active room) (system.Runs room main) config.interrupted config.hart

theorem nested_step {main : Hart} (enough : frameBytes frame ≤ room)
    (contracts : system.Contracts room main) {before after : Config}
    (nested : system.Nested room main before) (step : system.Step room before after) :
    system.Nested room main after := by
  cases step with
  | @wrapper hart later stack moved =>
      cases stack with
      | nil =>
          rw [step_of_outside (contracts.main hart nested)] at moved
          cases moved
      | cons interrupted rest => exact ⟨active_step nested.1 moved, nested.2⟩
  | @body hart later stack outside moved =>
      cases stack with
      | nil => exact System.Runs.body nested outside moved
      | cons interrupted rest =>
          exact ⟨active_body enough contracts nested.1 outside moved, nested.2⟩
  | trap irq code level enabled space =>
      exact ⟨active_takeTrap enough irq code level enabled space, nested⟩
  | @mret hart stack next atMret =>
      cases stack with
      | nil =>
          rw [contracts.main hart nested] at atMret
          cases atMret
      | cons interrupted rest =>
          exact Chain.disturbed (fun active disturbs => active.disturbed disturbs)
            (fun runs disturbs => runs.preempted disturbs) nested.2
            (active_mret nested.1 atMret).2

theorem nested_run {main : Hart} (enough : frameBytes frame ≤ room)
    (contracts : system.Contracts room main) {config : Config}
    (run : ReflTransGen (system.Step room) ⟨main, []⟩ config) :
    system.Nested room main config := by
  induction run with
  | refl => exact System.Runs.start
  | tail _ step ih => exact nested_step enough contracts ih step

end

/-- At any nesting depth a trap's `mret` gives back program counter, registers, level and
enable of the moment the trap was taken, if every trap finds room for its frame. -/
theorem nested_traps_restore (system : System ι frame) (room : Nat)
    (enough : frameBytes frame ≤ room) (main : Hart) (contracts : system.Contracts room main)
    (config : Config) (run : ReflTransGen (system.Step room) ⟨main, []⟩ config) (next : Word)
    (atMret : system.fetch config.hart.pc = some (.mret, next)) :
    ∃ interrupted rest, config.interrupted = interrupted :: rest ∧
      Restored interrupted (config.hart.mret system.format) := by
  obtain ⟨hart, stack⟩ := config
  have nested := nested_run enough contracts run
  cases stack with
  | nil =>
      rw [contracts.main hart nested] at atMret
      cases atMret
  | cons interrupted rest => exact ⟨interrupted, rest, rfl, (active_mret nested.1 atMret).1⟩

/-! A program whose one handler writes a byte at address 0, where its contract allows that,
and returns. -/

def scribble (hart : Hart) : Hart :=
  (if hart.get sp = 0 then hart
    else hart.setMem fun byte => if byte = 0 then 0xFF else hart.mem byte).goto (hart.get 1)

def scribbler (frame : Frame) : System Unit frame where
  toImage := assembled frame
  format := clicCause
  body before after := before.pc = 0x4000 ∧ after = scribble before

theorem scribble_returned (frame : Frame) {start hart : Hart}
    (get : ∀ reg, hart.get reg = start.get reg)
    (mem : ∀ byte, start.get sp ≤ byte → hart.mem byte = start.mem byte) :
    Returned frame start (scribble hart) := by
  unfold scribble
  rw [get sp, get 1]
  split
  · exact ⟨rfl, fun reg _ => get reg, mem⟩
  · rename_i positive
    refine ⟨rfl, fun reg _ => get reg, fun byte above => ?_⟩
    have notZero : byte ≠ 0 := by
      rintro rfl
      exact positive (BitVec.le_zero_iff.mp above)
    simp only [Hart.goto_mem, Hart.setMem_mem, if_neg notZero]
    exact mem byte above

theorem Image.fetch_returnAddr (image : Image ι frame) : image.fetch image.returnAddr ≠ none := by
  obtain ⟨behind, call, _, disable, _⟩ := image.continuePlaced
  have returns : image.returnAddr = behind := by simp only [Image.returnAddr, call]
  rw [returns, disable]
  exact Option.some_ne_none _

theorem scribbler_handler (frame : Frame) (room : Nat) {start hart : Hart}
    (ra : start.get 1 = (scribbler frame).returnAddr)
    (runs : (scribbler frame).Runs room start hart) :
    (hart.pc = start.pc ∧ (∀ reg, hart.get reg = start.get reg) ∧
      ∀ byte, start.get sp ≤ byte → hart.mem byte = start.mem byte) ∨
      Returned frame start hart := by
  induction runs with
  | start => exact Or.inl ⟨rfl, fun _ => rfl, fun _ _ => rfl⟩
  | body _ outside moved ih =>
      obtain ⟨_, rfl⟩ := moved
      rcases ih with ⟨_, get, mem⟩ | returned
      · exact Or.inr (scribble_returned frame get mem)
      · rw [returned.pc_eq, ra] at outside
        exact absurd outside (scribbler frame).fetch_returnAddr
  | preempted _ disturbs ih =>
      rcases disturbs with rfl | ⟨_, _, preempted⟩
      · exact ih
      · rcases ih with ⟨pc, get, mem⟩ | returned
        · refine Or.inl ⟨preempted.pc_eq.trans pc,
            fun reg => (preempted.get_eq reg).trans (get reg), fun byte above => ?_⟩
          exact (preempted.mem_eq byte (get sp ▸ above)).trans (mem byte above)
        · refine Or.inr ⟨preempted.pc_eq.trans returned.pc_eq,
            fun reg notSaved => (preempted.get_eq reg).trans (returned.get_eq reg notSaved),
            fun byte above => ?_⟩
          have base := returned.get_eq sp frame.notSp
          exact (preempted.mem_eq byte (base ▸ above)).trans (returned.mem_eq byte above)

theorem scribbler_main (frame : Frame) (room : Nat) {main hart : Hart} (waiting : main.pc = 0x3000)
    (runs : (scribbler frame).Runs room main hart) : hart.pc = 0x3000 := by
  induction runs with
  | start => exact waiting
  | body _ _ moved ih =>
      have handling := moved.1
      rw [ih] at handling
      cases handling
  | preempted _ disturbs ih =>
      rcases disturbs with rfl | ⟨_, _, preempted⟩
      · exact ih
      · rw [preempted.pc_eq, ih]

theorem scribbler_contracts (frame : Frame) (room : Nat) (main : Hart)
    (waiting : main.pc = 0x3000) : (scribbler frame).Contracts room main where
  handler irq start atHandler ra _ hart runs := by
    rcases scribbler_handler frame room ra runs with ⟨pc, _, _⟩ | returned
    · left
      rw [pc, atHandler]
      exact (scribbler frame).interruptOutside irq
    · exact Or.inr returned
  main hart runs := by
    have outside : assembledFetch frame 0x3000 = none := assembledFetch_beyond frame (by decide)
    rw [scribbler_main frame room waiting runs]
    exact outside

/-! Runs of that program, move by move -/

inductive Move
  | run
  | trap

def scribblerMove (frame : Frame) (room : Nat) (config : Config) : Move → Option Config
  | .run =>
    match (scribbler frame).step config.hart with
    | some after => some ⟨after, config.interrupted⟩
    | none =>
      if config.hart.pc = 0x4000 then some ⟨scribble config.hart, config.interrupted⟩ else none
  | .trap =>
    if config.hart.mie ∧ room ≤ (config.hart.get sp).toNat then
      some ⟨config.hart.takeTrap clicCause 0x1000 17 1, config.hart :: config.interrupted⟩
    else none

def scribblerPlay (frame : Frame) (room : Nat) : List Move → Config → Option Config
  | [], config => some config
  | move :: rest, config => (scribblerMove frame room config move).bind
      (scribblerPlay frame room rest)

theorem scribblerMove_step {frame : Frame} {room : Nat} {before after : Config} {move : Move}
    (moved : scribblerMove frame room before move = some after) :
    (scribbler frame).Step room before after := by
  cases move with
  | run =>
      simp only [scribblerMove] at moved
      split at moved
      · rename_i stepped
        cases moved
        exact .wrapper stepped
      · split at moved
        · rename_i handling
          cases moved
          refine .body ?_ ⟨handling, rfl⟩
          rw [handling]
          exact (scribbler frame).interruptOutside ()
        · cases moved
  | trap =>
      simp only [scribblerMove] at moved
      split at moved
      · rename_i allowed
        cases moved
        exact .trap () 17 1 allowed.1 allowed.2
      · cases moved

theorem scribblerPlay_run {frame : Frame} {room : Nat} {before after : Config} {moves : List Move}
    (played : scribblerPlay frame room moves before = some after) :
    ReflTransGen ((scribbler frame).Step room) before after := by
  induction moves generalizing before with
  | nil =>
      cases played
      exact .refl
  | cons move rest ih =>
      obtain ⟨middle, moved, later⟩ := Option.bind_eq_some_iff.mp played
      exact .head (scribblerMove_step moved) (ih later)

def smallFrame : Frame where
  regs := [1, 5, 10, 15]
  distinct := by decide
  scratch := by decide
  notSp := by decide

def waitingMain (stack : Word) : Hart where
  pc := 0x3000
  regs reg := if reg = sp then stack else 0
  mem _ := 0
  mepc := 0
  mcause := 0
  mie := true
  level := 0

-- the second trap strikes between the two halves of the first one's `la`
def nestedMoves : List Move :=
  .trap :: List.replicate 11 .run ++ .trap :: List.replicate 25 .run

theorem nestedMoves_play :
    (scribblerPlay smallFrame 24 nestedMoves ⟨waitingMain 0x6000, []⟩).isSome := by
  decide

def nestedConfig : Config := Option.get _ nestedMoves_play

theorem nested_traps_restore_twice :
    ∃ interrupted rest, nestedConfig.interrupted = interrupted :: rest ∧
      Restored interrupted (nestedConfig.hart.mret clicCause) :=
  nested_traps_restore (scribbler smallFrame) 24 (by decide) (waitingMain 0x6000)
    (scribbler_contracts smallFrame 24 _ rfl) nestedConfig
    (scribblerPlay_run (Option.some_get nestedMoves_play).symm) 0x2030 (by decide)

def wrappedMoves : List Move := .trap :: List.replicate 25 .run

theorem wrappedMoves_play :
    (scribblerPlay smallFrame 0 wrappedMoves ⟨waitingMain 4, []⟩).isSome := by
  decide

def wrappedConfig : Config := Option.get _ wrappedMoves_play

/-- Without room for the frame it wraps around address 0: the slot of the return address lies
below the handler's stack pointer, the handler may write to it, and the trap returns to
0x30FF in place of 0x3000. -/
theorem nested_traps_wrap :
    (scribbler smallFrame).Contracts 0 (waitingMain 4) ∧
      ReflTransGen ((scribbler smallFrame).Step 0) ⟨waitingMain 4, []⟩ wrappedConfig ∧
      (wrappedConfig.interrupted.map fun interrupted => interrupted.pc) = [0x3000] ∧
      assembledFetch smallFrame wrappedConfig.hart.pc = some (.mret, 0x2030) ∧
      (wrappedConfig.hart.mret clicCause).pc = 0x30FF :=
  ⟨scribbler_contracts smallFrame 0 _ rfl,
    scribblerPlay_run (Option.some_get wrappedMoves_play).symm, by decide, by decide, by decide⟩

end Atalanta.Trampoline
