import Atalanta.SmokeTests.Crt0
import Mathlib.Tactic.IntervalCases

/-! The shared variable that `irq_handler_0` counts its activations in, where activations interrupt
each other. -/

namespace Atalanta.Crt0

open Trampoline WordMemory

def sharedVar : Word := 0x5000

/-- The activations begun, those of them `lost` to the counter, and how many interrupted another
one between the two instructions that form the address in `gp`. -/
structure Tally where
  taken : Nat
  lost : Nat
  astray : Nat

namespace Tally

def begun : Tally := ⟨1, 0, 0⟩

/-- What comes between the load of the shared variable and its store is lost. -/
def nested (tally inner : Tally) (position : Nat) : Tally where
  taken := tally.taken + inner.taken
  lost := tally.lost + if position = 16 ∨ position = 17 then inner.taken else inner.lost
  astray := tally.astray + inner.astray + if position = 14 then 1 else 0

end Tally

-- the stack of an activation lies above the shared variable
def Room (interrupted : Hart) : Prop := 0x5004 + 36 ≤ (interrupted.get sp).toNat

/-- The states of `irq_handler_0` between a trap and its `mret`, where it is the handler of every
interrupt. -/
inductive Counting (layout : Layout) : Hart → Nat → Hart → Tally → Prop
  | trap (interrupted : Hart) (cause : Word) (level : BitVec 8) : Room interrupted →
      Counting layout interrupted 0
        (interrupted.takeTrap layout.format (layout.address .irqHandler0 0) cause level) .begun
  | step {interrupted position hart tally op next} :
      Counting layout interrupted position hart tally → irqHandler0[position]? = some op →
      op.next position hart = some next → Counting layout interrupted next (op.effect hart) tally
  | nested {interrupted position hart tally last innerPosition inner} :
      Counting layout interrupted position hart tally → hart.mie = true →
      Counting layout (hart.goto (layout.address .irqHandler0 position)) innerPosition last inner →
      irqHandler0[innerPosition]? = some (.instr .mret) →
      last.mepc = layout.address .irqHandler0 position →
      Counting layout interrupted position (last.mret layout.format) (tally.nested inner position)

section Counting

variable {layout : Layout} {interrupted hart : Hart} {position : Nat} {tally : Tally}

theorem Counting.reaches (callees : Callees layout)
    (counting : Counting layout interrupted position hart tally) :
    callees.Reaches .irqHandler0 interrupted (.at position) hart := by
  induction counting with
  | trap interrupted cause level _ => exact .trap .irqHandler0 interrupted cause level
  | step _ here moves ih => exact ih.step here moves
  | nested _ enabled _ returns back ih inner => exact ih.nested enabled inner returns back

theorem Counting.room (counting : Counting layout interrupted position hart tally) :
    Room interrupted := by
  induction counting with
  | trap _ _ _ room => exact room
  | step _ _ _ ih => exact ih
  | nested _ _ _ _ _ ih _ => exact ih

theorem Counting.lost_lt (counting : Counting layout interrupted position hart tally) :
    tally.lost < tally.taken := by
  induction counting with
  | trap => exact Nat.zero_lt_one
  | step _ _ _ ih => exact ih
  | nested _ _ _ _ _ outer inner =>
      unfold Tally.nested
      dsimp only
      split <;> omega

end Counting

/-! The frame -/

abbrev irqRegs : List Reg := [ra, t0, a0, a1, a2, a3, t1]

theorem irqRegs_framed : Framed irqRegs := by decide

def Apart (byte : Word) : Prop := 4 ≤ (byte - sharedVar).toNat

/-- Between the save and the restore of an activation that began in `trapped`. -/
structure Holds (trapped hart : Hart) : Prop where
  saved : Saved irqRegs trapped hart
  others : ∀ reg, reg ∉ irqRegs → reg ≠ sp → reg ≠ gp → hart.get reg = trapped.get reg
  kept : ∀ byte, trapped.get sp ≤ byte → Apart byte → hart.mem byte = trapped.mem byte
  mie : hart.mie = true

section Holds

variable {trapped hart : Hart}

theorem base_toNat (room : Room trapped) :
    (trapped.get sp - 36).toNat = (trapped.get sp).toNat - 36 := by
  unfold Room at room
  have bounded := (trapped.get sp).isLt
  rw [BitVec.toNat_sub_of_le (BitVec.le_def.mpr (by change 36 ≤ _; omega))]
  rfl

theorem apart_of_above (room : Room trapped) {byte : Word}
    (above : trapped.get sp - 36 ≤ byte) : Apart byte := by
  have base := base_toNat room
  have order := BitVec.le_def.mp above
  have bounded := byte.isLt
  unfold Room at room
  rw [Apart, BitVec.toNat_sub_of_le (BitVec.le_def.mpr (by change 0x5000 ≤ _; omega))]
  change 4 ≤ byte.toNat - 0x5000
  omega

theorem load_frame {left right : Memory} (room : Room trapped)
    (same : ∀ byte, trapped.get sp - 36 ≤ byte → Apart byte → right byte = left byte)
    {index : Nat} (inFrame : index < 9) :
    load right (slot (trapped.get sp - 36) index) =
      load left (slot (trapped.get sp - 36) index) := by
  refine load_slot_congr (by omega) fun byte low high => ?_
  have base := base_toNat room
  have bounded := (trapped.get sp).isLt
  have limit := byte.isLt
  have above : trapped.get sp - 36 ≤ byte := by
    unfold Room at room
    rw [BitVec.toNat_sub] at low high
    rw [BitVec.le_def]
    omega
  exact same byte above (apart_of_above room above)

theorem Saved.congr_above (room : Room trapped) {later : Hart} (saved : Saved irqRegs trapped hart)
    (base : later.get sp = hart.get sp)
    (same : ∀ byte, hart.get sp ≤ byte → Apart byte → later.mem byte = hart.mem byte) :
    Saved irqRegs trapped later := by
  have below := saved.base
  have slots {index : Nat} (inFrame : index < 9) :
      load later.mem (slot (later.get sp) index) = load hart.mem (slot (hart.get sp) index) := by
    rw [base, below]
    exact load_frame room (below ▸ same) inFrame
  refine ⟨base.trans below, fun index reg listed => ?_, ?_, ?_⟩
  · have early : index < 7 := (List.getElem?_eq_some_iff.mp listed).1
    rw [slots (by omega), saved.regs index reg listed]
  · rw [slots (by decide), saved.mepc]
  · rw [slots (by decide), saved.mcause]

theorem Holds.set (holds : Holds trapped hart) {reg : Reg} (scratch : reg = gp ∨ reg = t0)
    (value : Word) : Holds trapped (hart.set reg value) := by
  have apart : sp ≠ reg := by
    rcases scratch with rfl | rfl <;> decide
  have base : (hart.set reg value).get sp = hart.get sp := hart.get_set_other value apart
  refine ⟨⟨base.trans holds.saved.base, ?_, ?_, ?_⟩, fun other outside notSp notGp => ?_,
    holds.kept, holds.mie⟩
  · rw [base]
    exact holds.saved.regs
  · rw [base]
    exact holds.saved.mepc
  · rw [base]
    exact holds.saved.mcause
  · refine (hart.get_set_other value ?_).trans (holds.others other outside notSp notGp)
    rcases scratch with rfl | rfl
    · exact notGp
    · exact (ne_of_mem_of_not_mem irqRegs_framed.2.2.1 outside).symm

theorem Holds.store (holds : Holds trapped hart) (room : Room trapped) (value : Word) :
    Holds trapped (hart.setMem (store hart.mem sharedVar value)) where
  saved := holds.saved.congr_above room rfl fun _ _ apart => store_apart _ _ apart
  others := holds.others
  kept byte above apart := (store_apart _ _ apart).trans (holds.kept byte above apart)
  mie := holds.mie

end Holds

/-! The activation, position by position -/

section Activation

variable {layout : Layout} {interrupted trapped hart : Hart} {position : Nat} {tally : Tally}

theorem frameMem_outside {base byte : Word} (outside : 36 ≤ (byte - base).toNat) :
    frameMem irqRegs base trapped byte = trapped.mem byte := by
  unfold frameMem
  rw [store_slot_outside _ _ (by decide) (by omega), store_slot_outside _ _ (by decide) (by omega),
    storeSlots_outside _ _ _ _ (by rw [List.length_map]; decide)]
  change 4 * (0 + 7) ≤ (byte - base).toNat
  omega

theorem outside_frame (room : Room trapped) {byte : Word}
    (outside : trapped.get sp ≤ byte ∨ byte.toNat < 0x5004) :
    36 ≤ (byte - (trapped.get sp - 36)).toNat := by
  have base := base_toNat room
  have bounded := (trapped.get sp).isLt
  unfold Room at room
  rw [BitVec.toNat_sub, base]
  rcases outside with above | below
  · have order := BitVec.le_def.mp above
    have limit := byte.isLt
    omega
  · omega

theorem saved_holds (room : Room trapped) :
    Holds trapped (effects (save irqRegs) trapped) ∧
      load (effects (save irqRegs) trapped).mem sharedVar = load trapped.mem sharedVar := by
  obtain ⟨saved, enabled, others⟩ := effects_save irqRegs_framed trapped
  have mem : (effects (save irqRegs) trapped).mem =
      frameMem irqRegs (trapped.get sp - 36) trapped := by
    rw [effects_save_eq]
    rfl
  refine ⟨⟨saved, fun reg outside notSp _ => others reg notSp outside, fun byte above _ => ?_,
    enabled⟩, ?_⟩
  · rw [mem, frameMem_outside (outside_frame room (.inl above))]
  · rw [mem]
    refine load_congr fun byte small => frameMem_outside (outside_frame room (.inr ?_))
    rw [sharedVar, BitVec.toNat_add]
    change (0x5000 + byte.toNat) % 2 ^ 32 < _
    omega

/-- What the counter holds when all activations but this one have counted. -/
def expected (trapped : Hart) (tally : Tally) : Word :=
  load trapped.mem sharedVar + BitVec.ofNat 32 (tally.taken - 1 - tally.lost)

/-- The address and the counter at the positions where interrupts are enabled. -/
def Progress (trapped : Hart) (tally : Tally) (hart : Hart) : Nat → Prop
  | 13 => load hart.mem sharedVar = expected trapped tally
  | 14 => hart.get gp = 0x500 ∧ load hart.mem sharedVar = expected trapped tally
  | 15 => hart.get gp = sharedVar ∧ load hart.mem sharedVar = expected trapped tally
  | 16 => hart.get gp = sharedVar ∧ hart.get t0 = expected trapped tally
  | 17 => hart.get gp = sharedVar ∧ hart.get t0 = expected trapped tally + 1
  | 18 => hart.get gp = sharedVar ∧ load hart.mem sharedVar = expected trapped tally + 1
  | _ => False

/-- Where an activation is, if none has gone astray. -/
inductive Stage (trapped : Hart) : Nat → Hart → Tally → Prop
  | saving {position : Nat} : position ≤ 12 →
      Stage trapped position (run (irqHandler0.take position) trapped) .begun
  | inside {position : Nat} {hart : Hart} {tally : Tally} : Holds trapped hart →
      Progress trapped tally hart position → Stage trapped position hart tally
  | restoring {position : Nat} {hart : Hart} {tally : Tally} : Holds trapped hart →
      Progress trapped tally hart 18 → 19 ≤ position → position ≤ 31 →
      Stage trapped position (run ((irqHandler0.drop 18).take (position - 18)) hart) tally

theorem run_take_succ {ops : List Op} {op : Op} (here : ops[position]? = some op) (start : Hart) :
    run (ops.take (position + 1)) start = op.effect (run (ops.take position) start) := by
  rw [List.take_add_one, here, run, List.foldl_append]
  rfl

theorem irq_plain : ∀ op ∈ irqHandler0, op = .instr .mret ∨ op.plain := by decide

theorem irq_next {op : Op} {next : Nat} (here : irqHandler0[position]? = some op)
    (moves : op.next position hart = some next) : next = position + 1 := by
  rcases irq_plain op (List.mem_of_getElem? here) with rfl | plain
  · cases moves
  · exact (Option.some.inj ((next_of_plain plain position hart).symm.trans moves)).symm

theorem Progress.positions (progress : Progress trapped tally hart position) :
    13 ≤ position ∧ position ≤ 18 := by
  unfold Progress at progress
  split at progress
  all_goals first | omega | cases progress

theorem inside_step (room : Room trapped) (holds : Holds trapped hart)
    (progress : Progress trapped tally hart position) (before : position < 18) {op : Op}
    (here : irqHandler0[position]? = some op) :
    Stage trapped (position + 1) (op.effect hart) tally := by
  obtain ⟨low, _⟩ := progress.positions
  obtain rfl | rfl | rfl | rfl | rfl : position = 13 ∨ position = 14 ∨ position = 15 ∨
    position = 16 ∨ position = 17 := by omega
  · cases here
    exact .inside (holds.set (.inl rfl) _) ⟨hart.get_set_same _ (by decide), progress⟩
  · cases here
    obtain ⟨address, counter⟩ := progress
    refine .inside (holds.set (.inl rfl) _) ⟨?_, counter⟩
    refine (hart.get_set_same _ (by decide)).trans ?_
    rw [address]
    rfl
  · cases here
    obtain ⟨address, counter⟩ := progress
    refine .inside (holds.set (.inr rfl) _)
      ⟨(hart.get_set_other _ (by decide)).trans address, ?_⟩
    refine (hart.get_set_same _ (by decide)).trans ?_
    rw [address, add_zero, counter]
  · cases here
    obtain ⟨address, value⟩ := progress
    refine .inside (holds.set (.inr rfl) _)
      ⟨(hart.get_set_other _ (by decide)).trans address, ?_⟩
    refine (hart.get_set_same _ (by decide)).trans ?_
    rw [value]
  · cases here
    obtain ⟨address, value⟩ := progress
    have stored : Op.effect (.instr (.sw t0 0 gp)) hart =
        hart.setMem (store hart.mem sharedVar (expected trapped tally + 1)) := by
      change hart.setMem (store hart.mem (hart.get gp + 0) (hart.get t0)) = _
      rw [address, value, add_zero]
    rw [stored]
    exact .inside (holds.store room _) ⟨address, load_store_same _ _ _⟩

theorem Stage.step (room : Room trapped) (stage : Stage trapped position hart tally) {op : Op}
    (here : irqHandler0[position]? = some op) {next : Nat}
    (moves : op.next position hart = some next) : Stage trapped next (op.effect hart) tally := by
  obtain rfl := irq_next here moves
  cases stage with
  | saving early =>
      rw [← run_take_succ here]
      by_cases last : position = 12
      · subst last
        obtain ⟨holds, counter⟩ := saved_holds room
        have whole : run (irqHandler0.take 13) trapped = effects (save irqRegs) trapped :=
          run_instrs (save irqRegs) trapped
        rw [whole]
        refine .inside holds ?_
        rw [Progress, counter, expected]
        exact (add_zero _).symm
      · exact .saving (by omega)
  | inside holds progress =>
      obtain ⟨_, high⟩ := progress.positions
      by_cases last : position = 18
      · subst last
        cases here
        exact .restoring holds progress (by decide) (by decide)
      · exact inside_step room holds progress (by omega) here
  | restoring holds progress after before =>
      have within : position ≠ 31 := by
        rintro rfl
        cases here
        cases moves
      have later : (irqHandler0.drop 18)[position - 18]? = some op := by
        rw [List.getElem?_drop, Nat.add_sub_cancel' (by omega), here]
      rw [← run_take_succ later, ← Nat.sub_add_comm (by omega)]
      exact .restoring holds progress (by omega) (by omega)

def Op.quiet : Op → Bool
  | .instr (.csrw .mstatus _) | .instr (.csrsi _ _) | .instr (.csrci _ _) => false
  | _ => true

theorem Op.quiet.mie_eq {op : Op} (quiet : op.quiet) (hart : Hart) :
    (op.effect hart).mie = hart.mie := by
  cases op with
  | instr own =>
      cases own with
      | csrw csr rs =>
          cases csr with
          | mstatus => cases quiet
          | mepc | mcause => rfl
      | csrsi | csrci => cases quiet
      | _ => rfl
  | _ => rfl

theorem run_quiet {ops : List Op} (quiet : ∀ op ∈ ops, op.quiet) (hart : Hart) :
    (run ops hart).mie = hart.mie := by
  induction ops generalizing hart with
  | nil => rfl
  | cons op ops ih =>
      refine (ih (fun other later => quiet other (List.mem_cons_of_mem op later)) _).trans ?_
      exact Op.quiet.mie_eq (quiet op List.mem_cons_self) hart

theorem Stage.enabled (quiet : trapped.mie = false) (stage : Stage trapped position hart tally)
    (enabled : hart.mie = true) :
    Holds trapped hart ∧ Progress trapped tally hart position := by
  cases stage with
  | saving early =>
      have silent : ∀ op ∈ irqHandler0.take 12, op.quiet := by decide
      have off := run_quiet (fun op listed => silent op (List.take_subset_take_left _ early listed))
        trapped
      rw [off, quiet] at enabled
      cases enabled
  | inside holds progress => exact ⟨holds, progress⟩
  | @restoring hart _ holds progress after before =>
      have first : irqHandler0.drop 18 = .instr (.csrci .mstatus 8) :: irqHandler0.drop 19 := rfl
      have silent : ∀ op ∈ irqHandler0.drop 19, op.quiet := by decide
      have later : position - 18 = position - 19 + 1 := by omega
      rw [first, later, List.take_succ_cons, run, List.foldl_cons, ← run,
        run_quiet fun op listed => silent op (List.mem_of_mem_take listed)] at enabled
      rw [show (Op.effect (.instr (.csrci .mstatus 8)) hart).mie = false from csrci_mie hart]
        at enabled
      cases enabled

def stores : Instr → Bool
  | .sw _ _ _ => true
  | _ => false

theorem effects_mem (code : List Instr) (loads : ∀ instr ∈ code, stores instr = false)
    (hart : Hart) : (effects code hart).mem = hart.mem := by
  induction code generalizing hart with
  | nil => rfl
  | cons instr code ih =>
      have first : (instr.effect hart).mem = hart.mem := by
        cases instr with
        | sw => cases loads _ List.mem_cons_self
        | csrw csr | csrsi csr | csrci csr => cases csr <;> rfl
        | _ => rfl
      rw [effects_cons, ih fun other later => loads other (List.mem_cons_of_mem instr later), first]

/-- What an activation has done at its `mret`: only `gp` is not as it was. -/
structure Done (trapped last : Hart) (tally : Tally) : Prop where
  address : last.get gp = sharedVar
  regs : ∀ reg, reg ≠ gp → last.get reg = trapped.get reg
  kept : ∀ byte, trapped.get sp ≤ byte → Apart byte → last.mem byte = trapped.mem byte
  counter : load last.mem sharedVar =
    load trapped.mem sharedVar + BitVec.ofNat 32 (tally.taken - tally.lost)
  mepc : last.mepc = trapped.mepc
  mcause : last.mcause = trapped.mcause

theorem returns_at (here : irqHandler0[position]? = some (.instr .mret)) : position = 31 := by
  have below : position < 32 := (List.getElem?_eq_some_iff.mp here).1
  have final : ∀ position < 32, irqHandler0[position]? = some (.instr .mret) → position = 31 := by
    decide
  exact final position below here

theorem expected_succ (less : tally.lost < tally.taken) :
    expected trapped tally + 1 =
      load trapped.mem sharedVar + BitVec.ofNat 32 (tally.taken - tally.lost) := by
  have counts : tally.taken - tally.lost = tally.taken - 1 - tally.lost + 1 := by omega
  rw [expected, counts, BitVec.ofNat_add, ← add_assoc]
  rfl

theorem Stage.done (less : tally.lost < tally.taken) (stage : Stage trapped 31 hart tally) :
    Done trapped hart tally := by
  cases stage with
  | saving early => omega
  | inside _ progress =>
      have bound := progress.positions
      omega
  | @restoring hart _ holds progress _ _ =>
      have whole : run ((irqHandler0.drop 18).take (31 - 18)) hart =
          effects (restore irqRegs) hart := run_instrs (restore irqRegs) hart
      have restores := effects_restore irqRegs_framed holds.saved
      have mem := effects_mem (restore irqRegs) (by decide) hart
      rw [whole]
      generalize effects (restore irqRegs) hart = last at restores mem ⊢
      obtain ⟨base, restored, others, mepc, mcause⟩ := restores
      obtain ⟨address, counter⟩ := progress
      refine ⟨?_, fun reg notGp => ?_, ?_, ?_, mepc, mcause⟩
      · exact (others gp (by decide) (by decide)).trans address
      · by_cases isSp : reg = sp
        · rw [isSp, base]
        · by_cases listed : reg ∈ irqRegs
          · exact restored reg listed
          · exact (others reg isSp listed).trans (holds.others reg listed isSp notGp)
      · rw [mem]
        exact holds.kept
      · rw [mem]
        exact counter.trans (expected_succ less)

/-- An activation that has returned to another one, not between the two instructions that form
the address, leaves it where it was. -/
theorem Stage.nested {last : Hart} {inner : Tally} {pc cause : Word} {level : BitVec 8}
    (room : Room trapped) (holds : Holds trapped hart)
    (progress : Progress trapped tally hart position) (formed : position ≠ 14)
    (outerLess : tally.lost < tally.taken) (innerLess : inner.lost < inner.taken)
    (done : Done ((hart.goto pc).takeTrap layout.format (layout.address .irqHandler0 0) cause level)
      last inner) :
    Stage trapped position (last.mret layout.format) (tally.nested inner position) := by
  have above {byte : Word} (outer : trapped.get sp ≤ byte) : hart.get sp ≤ byte := by
    have base := base_toNat room
    rw [← holds.saved.base] at base
    rw [BitVec.le_def] at outer ⊢
    omega
  have enabled : (last.mret layout.format).mie = true := by
    change layout.format.mie last.mcause = true
    rw [done.mcause]
    exact (layout.format.mie_save _ _ _).trans holds.mie
  have regs : ∀ reg, reg ≠ gp → (last.mret layout.format).get reg = hart.get reg := done.regs
  have kept : ∀ byte, hart.get sp ≤ byte → Apart byte →
      (last.mret layout.format).mem byte = hart.mem byte := done.kept
  have address : (last.mret layout.format).get gp = sharedVar := done.address
  have counted : load (last.mret layout.format).mem sharedVar =
      load hart.mem sharedVar + BitVec.ofNat 32 (inner.taken - inner.lost) := done.counter
  clear done
  generalize last.mret layout.format = resumed at *
  have value := regs t0 (by decide)
  refine .inside ⟨?_, ?_, ?_, enabled⟩ ?_
  · exact holds.saved.congr_above room (regs sp (by decide)) kept
  · intro reg outside notSp notGp
    exact (regs reg notGp).trans (holds.others reg outside notSp notGp)
  · intro byte outer apart
    exact (kept byte (above outer) apart).trans (holds.kept byte outer apart)
  · have more (early : ¬(position = 16 ∨ position = 17)) :
        expected trapped tally + BitVec.ofNat 32 (inner.taken - inner.lost) =
          expected trapped (tally.nested inner position) := by
      rw [expected, expected, add_assoc, ← BitVec.ofNat_add]
      unfold Tally.nested
      rw [if_neg early]
      congr 2
      dsimp only
      omega
    have same (late : position = 16 ∨ position = 17) :
        expected trapped tally = expected trapped (tally.nested inner position) := by
      rw [expected, expected]
      unfold Tally.nested
      rw [if_pos late]
      congr 2
      dsimp only
      omega
    obtain ⟨low, high⟩ := progress.positions
    obtain rfl | rfl | rfl | rfl | rfl : position = 13 ∨ position = 15 ∨ position = 16 ∨
      position = 17 ∨ position = 18 := by omega
    · exact counted.trans (by rw [show load hart.mem sharedVar = _ from progress, more (by decide)])
    · exact ⟨address, counted.trans (by rw [progress.2, more (by decide)])⟩
    · exact ⟨address, value.trans (by rw [progress.2, same (by decide)])⟩
    · exact ⟨address, value.trans (by rw [progress.2, same (by decide)])⟩
    · refine ⟨address, counted.trans ?_⟩
      rw [progress.2, ← more (by decide), add_assoc, add_comm 1, ← add_assoc]

theorem Counting.stage (counting : Counting layout interrupted position hart tally)
    (straight : tally.astray = 0) :
    ∃ cause level, Stage (interrupted.takeTrap layout.format (layout.address .irqHandler0 0) cause
      level) position hart tally := by
  induction counting with
  | trap interrupted cause level room => exact ⟨cause, level, .saving (Nat.zero_le 12)⟩
  | step counting here moves ih =>
      obtain ⟨cause, level, stage⟩ := ih straight
      exact ⟨cause, level, stage.step (by exact counting.room) here moves⟩
  | @nested interrupted position hart tally last innerPosition inner outer enabled counting returns
      back outerIh innerIh =>
      unfold Tally.nested at straight
      dsimp only at straight
      obtain ⟨cause, level, stage⟩ := outerIh (by omega)
      obtain ⟨innerCause, innerLevel, innerStage⟩ := innerIh (by omega)
      obtain ⟨holds, progress⟩ := stage.enabled rfl enabled
      have formed : position ≠ 14 := by
        intro atAddress
        rw [if_pos atAddress] at straight
        omega
      obtain rfl := returns_at returns
      exact ⟨cause, level, .nested outer.room holds progress formed outer.lost_lt
        counting.lost_lt (innerStage.done counting.lost_lt)⟩

theorem Counting.onward (counting : Counting layout interrupted position hart tally) (count : Nat)
    (within : position + count ≤ 31) :
    Counting layout interrupted (position + count)
      (run ((irqHandler0.drop position).take count) hart) tally := by
  induction count with
  | zero => exact counting
  | succ count ih =>
      obtain ⟨op, here⟩ : ∃ op, irqHandler0[position + count]? = some op :=
        ⟨_, List.getElem?_eq_getElem (show position + count < 32 by omega)⟩
      have later : (irqHandler0.drop position)[count]? = some op := by
        rw [List.getElem?_drop, here]
      have plain : op.plain := by
        rcases irq_plain op (List.mem_of_getElem? here) with rfl | plain
        · have final := returns_at here
          omega
        · exact plain
      rw [run_take_succ later]
      exact (ih (by omega)).step here (next_of_plain plain _ _)

theorem counting_alone (layout : Layout) (room : Room interrupted) {count : Nat}
    (within : count ≤ 31) : Counting layout interrupted count
      (run (irqHandler0.take count) (interrupted.takeTrap layout.format
        (layout.address .irqHandler0 0) 0 0)) .begun := by
  have trapped : Counting layout interrupted 0 _ .begun := .trap interrupted 0 0 room
  have counting := trapped.onward count (by omega)
  rwa [Nat.zero_add] at counting

theorem Stage.holds (stage : Stage trapped position hart tally) (low : 13 ≤ position)
    (high : position ≤ 18) : Holds trapped hart ∧ Progress trapped tally hart position := by
  cases stage with
  | saving early => omega
  | inside holds progress => exact ⟨holds, progress⟩
  | restoring => omega

end Activation

/-- Where every interrupt is handled by `irq_handler_0`, to any depth, and none comes between the
two instructions that form the address, the shared variable counts the activations but those that
came between its load and its store in another one; the interrupted program loses only `gp`. -/
theorem activations_counted (layout : Layout) (interrupted last : Hart) (position : Nat)
    (tally : Tally) (counting : Counting layout interrupted position last tally)
    (returns : irqHandler0[position]? = some (.instr .mret)) (straight : tally.astray = 0) :
    load last.mem sharedVar =
        load interrupted.mem sharedVar + BitVec.ofNat 32 (tally.taken - tally.lost) ∧
      tally.lost < tally.taken ∧
      (∀ reg, reg ≠ gp → last.get reg = interrupted.get reg) ∧ last.get gp = sharedVar ∧
      last.mepc = interrupted.pc := by
  obtain rfl := returns_at returns
  obtain ⟨cause, level, stage⟩ := counting.stage straight
  have done := stage.done counting.lost_lt
  exact ⟨done.counter, counting.lost_lt, done.regs, done.address, done.mepc⟩

def stacked : Hart := idle.set sp 0x6000

theorem stacked_room : Room stacked := by
  unfold Room
  decide

theorem stacked_reaches {position : Nat} (low : 13 ≤ position) (high : position ≤ 18) :
    ∃ hart, Counting smokeLayout stacked position hart .begun ∧ hart.mie = true ∧ Room hart := by
  have counting := counting_alone smokeLayout stacked_room (show position ≤ 31 by omega)
  obtain ⟨cause, level, stage⟩ := counting.stage rfl
  obtain ⟨holds, _⟩ := stage.holds low high
  refine ⟨_, counting, holds.mie, ?_⟩
  rw [Room, holds.saved.base]
  change 0x5004 + 36 ≤ (stacked.get sp - 36).toNat
  decide

theorem activations_counted_lost : ∃ last,
    Counting smokeLayout stacked 31 last ⟨2, 1, 0⟩ ∧ load last.mem sharedVar = 1 := by
  obtain ⟨hart, outer, enabled, room⟩ := stacked_reaches (show 13 ≤ 16 by decide) (by decide)
  have inner := counting_alone smokeLayout
    (show Room (hart.goto (smokeLayout.address .irqHandler0 16)) from room) (Nat.le_refl 31)
  obtain ⟨_, _, _, _, mepc⟩ := activations_counted _ _ _ _ _ inner rfl rfl
  have ends := (outer.nested enabled inner rfl mepc).onward 15 (by decide)
  obtain ⟨counter, _⟩ := activations_counted _ _ _ _ _ ends rfl rfl
  exact ⟨_, ends, counter⟩

def clicBaseAddr : Word := 0x50000

/-- With the address already formed, the second instruction shifts it once more. -/
theorem shifted_again (resumed : Hart) (address : resumed.get gp = sharedVar) :
    (run ((irqHandler0.drop 14).take 17) resumed).mem =
      store resumed.mem clicBaseAddr (load resumed.mem clicBaseAddr + 1) := by
  have halves : (irqHandler0.drop 14).take 17 =
      [.slli gp gp 4, .instr (.lw t0 0 gp), .instr (.addi t0 t0 1), .instr (.sw t0 0 gp)] ++
        (restore irqRegs).map .instr := rfl
  rw [halves, run, List.foldl_append, ← run, ← run, run_instrs, effects_mem _ (by decide)]
  have shifted : (resumed.set gp (resumed.get gp <<< 4)).get gp = clicBaseAddr := by
    rw [resumed.get_set_same _ (by decide), address]
    rfl
  have stores : ∀ formed : Hart, formed.get gp = clicBaseAddr →
      (run [.instr (.lw t0 0 gp), .instr (.addi t0 t0 1), .instr (.sw t0 0 gp)] formed).mem =
        store formed.mem clicBaseAddr (load formed.mem clicBaseAddr + 1) := by
    intro formed at_
    have loaded : Op.effect (.instr (.lw t0 0 gp)) formed =
        formed.set t0 (load formed.mem clicBaseAddr) := by
      rw [← at_, ← add_zero (formed.get gp)]
      rfl
    rw [run, List.foldl_cons, loaded]
    generalize holding : formed.set t0 (load formed.mem clicBaseAddr) = held
    have value : held.get t0 = load formed.mem clicBaseAddr :=
      holding ▸ formed.get_set_same _ (by decide)
    have base : held.get gp = clicBaseAddr := by
      rw [← holding, formed.get_set_other _ (by decide), at_]
    have mem : held.mem = formed.mem := holding ▸ rfl
    change store held.mem ((held.set t0 (held.get t0 + 1)).get gp + 0)
      ((held.set t0 (held.get t0 + 1)).get t0) = _
    rw [held.get_set_same _ (by decide), held.get_set_other _ (by decide), base, value, mem,
      add_zero]
  exact stores _ shifted

theorem load_clicBase {left right : Memory} {start : Word} (below : start.toNat ≤ 0x50000)
    (kept : ∀ byte, start ≤ byte → Apart byte → right byte = left byte) :
    load right clicBaseAddr = load left clicBaseAddr := by
  refine load_congr fun byte small => kept _ ?_ ?_
  · rw [BitVec.le_def, BitVec.toNat_add]
    change _ ≤ (0x50000 + byte.toNat) % 2 ^ 32
    omega
  · rw [Apart, BitVec.toNat_sub, BitVec.toNat_add]
    change 4 ≤ (2 ^ 32 - 0x5000 + (0x50000 + byte.toNat) % 2 ^ 32) % 2 ^ 32
    omega

theorem load_sharedVar (memory : Memory) (value : Word) :
    load (store memory clicBaseAddr value) sharedVar = load memory sharedVar := by
  refine load_congr fun byte small => store_apart _ _ ?_
  rw [BitVec.toNat_sub, BitVec.toNat_add]
  change 4 ≤ (2 ^ 32 - 0x50000 + (0x5000 + byte.toNat) % 2 ^ 32) % 2 ^ 32
  omega

/-- An activation that is interrupted between the two instructions, and not again, leaves the
shared variable to those that interrupted it: it adds one to the word at the base of the CLIC. -/
theorem interrupted_address (layout : Layout) (interrupted hart last : Hart) (position : Nat)
    (tally inner : Tally) (counting : Counting layout interrupted 14 hart tally)
    (nested : Counting layout (hart.goto (layout.address .irqHandler0 14)) position last inner)
    (returns : irqHandler0[position]? = some (.instr .mret))
    (straight : tally.astray = 0 ∧ inner.astray = 0)
    (below : (interrupted.get sp).toNat ≤ 0x50000) :
    ∃ ends, Counting layout interrupted 31 ends (tally.nested inner 14) ∧
      load ends.mem clicBaseAddr = load interrupted.mem clicBaseAddr + 1 ∧
      load ends.mem sharedVar = load interrupted.mem sharedVar +
        BitVec.ofNat 32 (tally.taken - 1 - tally.lost + (inner.taken - inner.lost)) := by
  obtain rfl := returns_at returns
  obtain ⟨cause, level, stage⟩ := counting.stage straight.1
  obtain ⟨holds, _, counter⟩ := stage.holds (by decide) (by decide)
  obtain ⟨innerCause, innerLevel, innerStage⟩ := nested.stage straight.2
  have done := innerStage.done nested.lost_lt
  have resumed := (counting.nested holds.mie nested returns done.mepc).onward 17 (by decide)
  refine ⟨_, resumed, ?_⟩
  have address : (last.mret layout.format).get gp = sharedVar := done.address
  have counted : load (last.mret layout.format).mem sharedVar = load hart.mem sharedVar +
    BitVec.ofNat 32 (inner.taken - inner.lost) := done.counter
  have kept : ∀ byte, hart.get sp ≤ byte → Apart byte →
    (last.mret layout.format).mem byte = hart.mem byte := done.kept
  have base : (hart.get sp).toNat ≤ 0x50000 := by
    have lower : (hart.get sp).toNat = (interrupted.get sp).toNat - 36 := by
      rw [holds.saved.base]
      exact base_toNat counting.room
    omega
  rw [shifted_again _ address, load_store_same, load_sharedVar, counted, counter,
    load_clicBase base kept, load_clicBase below holds.kept, expected, add_assoc,
    ← BitVec.ofNat_add]
  exact ⟨rfl, rfl⟩

theorem interrupted_address_stacked : ∃ ends, load ends.mem clicBaseAddr = 1 ∧
    Counting smokeLayout stacked 31 ends ⟨2, 0, 1⟩ := by
  obtain ⟨hart, outer, _, room⟩ := stacked_reaches (show 13 ≤ 14 by decide) (by decide)
  have inner := counting_alone smokeLayout
    (show Room (hart.goto (smokeLayout.address .irqHandler0 14)) from room) (Nat.le_refl 31)
  obtain ⟨ends, counting, incremented, _⟩ := interrupted_address _ _ _ _ _ _ _ outer inner rfl
    ⟨rfl, rfl⟩ (by decide)
  exact ⟨ends, incremented, counting⟩

end Atalanta.Crt0
