import Atalanta.Clic.Pending
import Atalanta.Clic.Registers

/-! The examples' `setup_irq` and `tear_irq`: the configuration that a program of them leaves, and
the one an interrupt has while it is enabled. What they print is left out. -/

namespace Atalanta.Clic

open BitField Bsp BusProgram Clocked

section Driver

variable (reg : Reg) (irq : BitVec 16)

def setupIrq (level : BitVec 8) : Driver Unit := do
  INTATTR.setTrig reg (intAddr irq) .edge
  INTATTR.setPolarity reg (intAddr irq) .pos
  INTATTR.setShv reg (intAddr irq) true
  INTCTL.setLevel reg (intAddr irq) level
  INTIE.enable reg (intAddr irq)

def tearIrq : Driver Unit := do
  INTIE.disable reg (intAddr irq)
  INTCTL.setLevel reg (intAddr irq) 0x0
  INTATTR.setShv reg (intAddr irq) false
  INTATTR.setTrig reg (intAddr irq) .level
  INTATTR.setPolarity reg (intAddr irq) .pos

end Driver

-- `setup_irq` of `hello_rt` has the level 0x88
inductive IrqOp
  | setup (level : BitVec 8)
  | tear
  | setPcs (pcs : Bool)
  | pend
  | unpend
deriving DecidableEq, Repr

def IrqOp.run (reg : Reg) (irq : BitVec 16) : IrqOp → Driver Unit
  | .setup level => setupIrq reg irq level
  | .tear => tearIrq reg irq
  | .setPcs pcs => INTIE.setPcs reg (intAddr irq) pcs
  | .pend => INTIP.pend reg (intAddr irq)
  | .unpend => INTIP.unpend reg (intAddr irq)

def runIrqs (reg : Reg) : List (BitVec 16 × IrqOp) → Driver Unit
  | [] => return ()
  | (irq, op) :: ops => do
    op.run reg irq
    runIrqs reg ops

def IrqOp.calls : IrqOp → List Call
  | .setup level =>
    [.setTrig .edge, .setPolarity .pos, .setShv true, .setLevel level, .enable]
  | .tear => [.disable, .setLevel 0x0, .setShv false, .setTrig .level, .setPolarity .pos]
  | .setPcs pcs => [.setPcs pcs]
  | .pend => [.pend]
  | .unpend => [.unpend]

theorem IrqOp.run_bind (reg : Reg) (irq : BitVec 16) (op : IrqOp)
    (calls : List (BitVec 16 × Call)) :
    (op.run reg irq).bind (fun _ => callAll reg calls) =
      callAll reg (op.calls.map (irq, ·) ++ calls) := by
  cases op with
  | setup level => rfl
  | tear => rfl
  | setPcs pcs => rfl
  | pend => rfl
  | unpend => rfl

def irqCalls (ops : List (BitVec 16 × IrqOp)) : List (BitVec 16 × Call) :=
  ops.flatMap fun set => set.2.calls.map (set.1, ·)

theorem runIrqs_eq (reg : Reg) (ops : List (BitVec 16 × IrqOp)) :
    runIrqs reg ops = callAll reg (irqCalls ops) := by
  induction ops with
  | nil => rfl
  | cons set ops ih =>
      obtain ⟨irq, op⟩ := set
      rw [runIrqs, ih]
      exact op.run_bind reg irq _

/-! Configurations -/

def config (state : State) : State := { state with ip := 0 }

def Call.store (call : Call) (state : State) : State :=
  match call with
  | .setMode mode => { state with attrMode := mode.repr.setWidth 2 }
  | .setTrig trig => { state with attrTrig := state.attrTrig.extractLsb' 1 1 ++ trig.repr }
  | .setPolarity polarity =>
    { state with attrTrig := polarity.repr ++ state.attrTrig.extractLsb' 0 1 }
  | .setShv shv => { state with attrShv := BitVec.ofBool shv }
  | .setLevel level => { state with ctl := level }
  | .setPcs pcs => { state with pcs := BitVec.ofBool pcs }
  | .enable => { state with ie := 1 }
  | .disable => { state with ie := 0 }
  | .pend => { state with ip := 1 }
  | .unpend => { state with ip := 0 }

theorem State.eq_of_get {left right : State}
    (same : ∀ field : Field, field.get left = field.get right) : left = right := by
  have bits : ∀ first second : BitVec 2, first.extractLsb' 0 1 = second.extractLsb' 0 1 →
      first.extractLsb' 1 1 = second.extractLsb' 1 1 → first = second := by decide
  cases left
  cases right
  rw [State.mk.injEq]
  exact ⟨same .ip, same .ie, same .pcs, same .shv, bits _ _ (same .trig) (same .polarity),
    same .mode, same .level⟩

theorem extract_low : ∀ high low : BitVec 1, (high ++ low).extractLsb' 0 1 = low := by decide

theorem extract_high : ∀ high low : BitVec 1, (high ++ low).extractLsb' 1 1 = high := by decide

theorem Call.get_store_own (call : Call) (state : State) :
    call.field.get (call.store state) = call.bits := by
  cases call with
  | setTrig trig => exact extract_low _ _
  | setPolarity polarity => exact extract_high _ _
  | _ => rfl

theorem Call.get_store_other (call : Call) (state : State) {field : Field}
    (other : field ≠ call.field) : field.get (call.store state) = field.get state := by
  cases call with
  | setTrig trig =>
      cases field with
      | trig => exact absurd rfl other
      | polarity => exact extract_high _ _
      | _ => rfl
  | setPolarity polarity =>
      cases field with
      | polarity => exact absurd rfl other
      | trig => exact extract_low _ _
      | _ => rfl
  | _ => cases field <;> first | rfl | exact absurd rfl other

theorem stored_change (call : Call) (state : State) :
    stored (call.change (word state)) = call.store state := by
  apply State.eq_of_get
  intro field
  rw [stored_field]
  by_cases own : field = call.field
  · subst own
    rw [call.get_store_own]
    exact field_putField _ _ _ call.field.inside
  · rw [call.get_store_other state own, ← word_field]
    exact field_putField_apart _ _ _ _ field.inside (Field.apart own)

def Call.configure (call : Call) (state : State) : State := config (call.store state)

theorem config_store (call : Call) (state : State) :
    config (call.store state) = call.configure (config state) := by
  cases call <;> rfl

def IrqOp.leaves (op : IrqOp) (state : State) : State :=
  config (match op with
    | .setup level => { state with ie := 1, attrShv := 1, attrTrig := 0b01, ctl := level }
    | .tear => { state with ie := 0, attrShv := 0, attrTrig := 0b00, ctl := 0 }
    | .setPcs pcs => { state with pcs := BitVec.ofBool pcs }
    | .pend | .unpend => state)

theorem set_trig_polarity (trig : Trig) : ∀ attrTrig : BitVec 2,
    Polarity.pos.repr ++ (attrTrig.extractLsb' 1 1 ++ trig.repr).extractLsb' 0 1 =
      0#1 ++ trig.repr := by
  cases trig <;> decide

theorem IrqOp.foldl_calls (op : IrqOp) (state : State) :
    op.calls.foldl (fun state call => call.configure state) state = op.leaves state := by
  cases op with
  | setup level =>
      have trig := set_trig_polarity .edge state.attrTrig
      simp only [calls, List.foldl_cons, List.foldl_nil, Call.configure, Call.store, config, leaves,
        trig]
      rfl
  | tear =>
      have trig := set_trig_polarity .level state.attrTrig
      simp only [calls, List.foldl_cons, List.foldl_nil, Call.configure, Call.store, config, leaves,
        trig]
      rfl
  | setPcs pcs => rfl
  | pend => rfl
  | unpend => rfl

def setConfig (configs : BitVec 16 → State) (set : BitVec 16 × Call) : BitVec 16 → State :=
  Function.update configs set.1 (set.2.configure (configs set.1))

theorem foldl_setConfig (irq : BitVec 16) (calls : List Call) (configs : BitVec 16 → State) :
    (calls.map (irq, ·)).foldl setConfig configs =
      Function.update configs irq
        (calls.foldl (fun state call => call.configure state) (configs irq)) := by
  induction calls generalizing configs with
  | nil => exact (Function.update_eq_self irq configs).symm
  | cons call calls ih =>
      rw [List.map_cons, List.foldl_cons, ih, setConfig, Function.update_self,
        Function.update_idem, List.foldl_cons]

def opsOn (irq : BitVec 16) (ops : List (BitVec 16 × IrqOp)) : List IrqOp :=
  (ops.filter fun set => set.1 = irq).map Prod.snd

theorem foldl_irqCalls (irq : BitVec 16) (ops : List (BitVec 16 × IrqOp))
    (configs : BitVec 16 → State) :
    (irqCalls ops).foldl setConfig configs irq =
      (opsOn irq ops).foldl (fun state op => op.leaves state) (configs irq) := by
  induction ops generalizing configs with
  | nil => rfl
  | cons set ops ih =>
      obtain ⟨other, op⟩ := set
      rw [irqCalls, List.flatMap_cons, List.foldl_append, foldl_setConfig, op.foldl_calls]
      refine (ih _).trans ?_
      by_cases own : other = irq
      · subst own
        simp only [opsOn, List.filter_cons_of_pos, decide_true, List.map_cons, List.foldl_cons,
          Function.update_self]
      · rw [Function.update_of_ne (Ne.symm own)]
        simp only [opsOn, own, List.filter_cons_of_neg, decide_false, Bool.false_eq_true,
          not_false_eq_true]

/-! Enabled interrupts -/

/-- The interrupt is set up, with one of the levels, or not enabled. -/
def Armed (levels : BitVec 8 → Prop) (state : State) : Prop :=
  state.ie = 1 → state.attrTrig = 0b01 ∧ state.attrShv = 1 ∧ levels state.ctl

def ArmedAlong (levels : BitVec 8 → Prop) : List Call → State → Prop
  | [], state => Armed levels state
  | call :: calls, state => Armed levels state ∧ ArmedAlong levels calls (call.configure state)

theorem IrqOp.armedAlong {levels : BitVec 8 → Prop} {state : State} (op : IrqOp)
    (armed : Armed levels state) (allowed : ∀ level, op = .setup level → levels level) :
    ArmedAlong levels op.calls state := by
  cases op with
  | setup level =>
      have trig : Polarity.pos.repr ++ (state.attrTrig.extractLsb' 1 1 ++ 1#1).extractLsb' 0 1 =
          0b01#2 :=
        set_trig_polarity .edge state.attrTrig
      have reset : state.ie = 1 → state.attrTrig.extractLsb' 1 1 ++ 1#1 = 0b01#2 := by
        intro enabled
        rw [(armed enabled).1]
        rfl
      exact ⟨armed, fun enabled => ⟨reset enabled, (armed enabled).2⟩,
        fun enabled => ⟨trig, (armed enabled).2⟩,
        fun enabled => ⟨trig, rfl, (armed enabled).2.2⟩,
        fun _ => ⟨trig, rfl, allowed level rfl⟩, fun _ => ⟨trig, rfl, allowed level rfl⟩⟩
  | tear => exact ⟨armed, nofun, nofun, nofun, nofun, nofun⟩
  | setPcs pcs => exact ⟨armed, armed⟩
  | pend => exact ⟨armed, armed⟩
  | unpend => exact ⟨armed, armed⟩

theorem ArmedAlong.armed {levels : BitVec 8 → Prop} {calls : List Call} {state : State}
    (along : ArmedAlong levels calls state) : Armed levels state := by
  cases calls with
  | nil => exact along
  | cons call calls => exact along.1

/-- Some of the interrupts, those that were disabled at first, are watched. -/
def AllArmed (watched : BitVec 16 → Prop) (levels : BitVec 16 → BitVec 8 → Prop)
    (configs : BitVec 16 → State) : Prop :=
  ∀ irq, watched irq → Armed (levels irq) (configs irq)

def ArmedThrough (watched : BitVec 16 → Prop) (levels : BitVec 16 → BitVec 8 → Prop) :
    List (BitVec 16 × Call) → (BitVec 16 → State) → Prop
  | [], configs => AllArmed watched levels configs
  | set :: calls, configs =>
    AllArmed watched levels configs ∧ ArmedThrough watched levels calls (setConfig configs set)

section Armed

variable {watched : BitVec 16 → Prop} {levels : BitVec 16 → BitVec 8 → Prop}

theorem AllArmed.update {configs : BitVec 16 → State} (armed : AllArmed watched levels configs)
    {irq : BitVec 16} {state : State} (own : watched irq → Armed (levels irq) state) :
    AllArmed watched levels (Function.update configs irq state) := by
  intro other watches
  by_cases same : other = irq
  · subst same
    rw [Function.update_self]
    exact own watches
  · rw [Function.update_of_ne same]
    exact armed other watches

theorem armedThrough_append (irq : BitVec 16) (calls : List Call)
    (later : List (BitVec 16 × Call)) {configs : BitVec 16 → State}
    (armed : AllArmed watched levels configs)
    (along : watched irq → ArmedAlong (levels irq) calls (configs irq))
    (rest : ∀ state, (watched irq → Armed (levels irq) state) →
      ArmedThrough watched levels later (Function.update configs irq state)) :
    ArmedThrough watched levels (calls.map (irq, ·) ++ later) configs := by
  induction calls generalizing configs with
  | nil =>
      have stays := rest (configs irq) along
      rw [Function.update_eq_self] at stays
      exact stays
  | cons call calls ih =>
      refine ⟨armed, ih ?_ (fun watches => ?_) fun state own => ?_⟩
      · exact armed.update fun watches => (along watches).2.armed
      · rw [setConfig, Function.update_self]
        exact (along watches).2
      · rw [setConfig, Function.update_idem]
        exact rest state own

theorem armedThrough_irqCalls (ops : List (BitVec 16 × IrqOp))
    (allowed : ∀ irq level, (irq, .setup level) ∈ ops → levels irq level)
    {configs : BitVec 16 → State} (armed : AllArmed watched levels configs) :
    ArmedThrough watched levels (irqCalls ops) configs := by
  induction ops generalizing configs with
  | nil => exact armed
  | cons set ops ih =>
      obtain ⟨irq, op⟩ := set
      refine armedThrough_append irq op.calls _ armed (fun watches => ?_) ?_
      · refine op.armedAlong (armed irq watches) ?_
        rintro level rfl
        exact allowed irq level (List.mem_cons_self ..)
      · exact fun state own => ih (fun other level inside =>
          allowed other level (List.mem_cons_of_mem _ inside)) (armed.update own)

end Armed

/-! Programs on the bank -/

def Configs (configs : BitVec 16 → State) (blocks : BitVec 32 → State) : Prop :=
  ∀ irq, config (blocks (intAddr irq)) = configs irq

def BlocksArmed (watched : BitVec 16 → Prop) (levels : BitVec 16 → BitVec 8 → Prop)
    (blocks : BitVec 32 → State) : Prop :=
  AllArmed watched levels fun irq => blocks (intAddr irq)

section Bank

variable {subreg : PrimSubreg} {reg : Reg} (subregDocumented : subreg.Documented)
  (regDocumented : reg.Documented) {watched : BitVec 16 → Prop}
  {levels : BitVec 16 → BitVec 8 → Prop} {configs : BitVec 16 → State}

include subregDocumented

theorem config_spared {blocks : BitVec 32 → State} {input : BankInput} {block : BitVec 32}
    (spared : Spared block input) :
    config ((bank subreg).next blocks input block) = config (blocks block) := by
  rw [bank_spared subregDocumented blocks input spared]
  rfl

theorem configs_stable (armed : AllArmed watched levels configs) :
    Stable (bank subreg) Idle (BlocksArmed watched levels) (Configs configs) where
  kept blocks input idle holds irq :=
    (config_spared subregDocumented (idle.spared _)).trans (holds irq)
  safe blocks holds irq watches := by
    have own := armed irq watches
    rw [← holds irq] at own
    exact own

-- what has been read is still the word of the interrupt, but for the pending bit
def Seen (configs : BitVec 16 → State) (irq : BitVec 16) (data : BitVec 32)
    (blocks : BitVec 32 → State) : Prop :=
  (∃ state, data = word state ∧ config state = configs irq) ∧ Configs configs blocks

include regDocumented

theorem call_triple (irq : BitVec 16) (call : Call) (calls : List (BitVec 16 × Call))
    (armed : AllArmed watched levels configs) {after : Unit → (BitVec 32 → State) → Prop}
    (rest : Triple (bank subreg) bankBus Idle (BlocksArmed watched levels)
      (Configs (setConfig configs (irq, call))) (callAll reg calls) after) :
    Triple (bank subreg) bankBus Idle (BlocksArmed watched levels) (Configs configs)
      (callAll reg ((irq, call) :: calls)) after := by
  have stable := configs_stable subregDocumented armed
  have writes : ∀ data, Triple (bank subreg) bankBus Idle
      (BlocksArmed watched levels) (Seen configs irq data)
      (.write (intAddr irq) (call.change data) (callAll reg calls)) after := by
    intro data
    have read : Stable (bank subreg) Idle (BlocksArmed watched levels) (Seen configs irq data) :=
      ⟨fun blocks input idle seen => ⟨seen.1, stable.kept blocks input idle seen.2⟩,
        fun blocks seen => stable.safe blocks seen.2⟩
    refine Triple.write read ?_ rest
    rintro blocks input writes ⟨⟨state, rfl, same⟩, holds⟩ other
    by_cases own : other = irq
    · subst own
      rw [bank_write subregDocumented blocks input writes, stored_change, config_store, same,
        setConfig, Function.update_self]
    · have apart := fun address => own (intAddr_injective address).symm
      rw [config_spared subregDocumented (spared_of_writes writes apart), holds other, setConfig,
        Function.update_of_ne own]
  rw [callAll, call.run_eq regDocumented irq]
  refine Triple.read stable (fun blocks input reads holds => ⟨?_, fun other => ?_⟩) writes
  · exact ⟨blocks (intAddr irq), bank_data blocks input reads, holds irq⟩
  · exact (config_spared subregDocumented (spared_of_reads reads _)).trans (holds other)

theorem callAll_configs (calls : List (BitVec 16 × Call))
    (through : ArmedThrough watched levels calls configs) :
    Triple (bank subreg) bankBus Idle (BlocksArmed watched levels) (Configs configs)
      (callAll reg calls) fun _ => Configs (calls.foldl setConfig configs) := by
  induction calls generalizing configs with
  | nil =>
      exact Triple.done (configs_stable subregDocumented through) fun _ holds => holds
  | cons set calls ih =>
      exact call_triple subregDocumented regDocumented set.1 set.2 calls through.1 (ih through.2)

end Bank

/-- Whatever events the hardware has, an interrupt that was disabled at first is enabled in no cycle
of a program of set-ups and tear-downs without all of its set-up, and the program leaves every
interrupt in the configuration of its last operations. -/
theorem irqs_set_up {subreg : PrimSubreg} {reg : Reg} (subregDocumented : subreg.Documented)
    (regDocumented : reg.Documented) (start : BitVec 32 → State) (input : Nat → BankInput)
    (ops : List (BitVec 16 × IrqOp)) {last : Nat} {accesses : List Nat}
    (performs : Performs (bank subreg) bankBus Idle start input (runIrqs reg ops) 0 accesses
      last ()) :
    let state := fun cycle irq => (bank subreg).runFrom start input cycle (intAddr irq)
    (∀ irq, (start (intAddr irq)).ie = 0 → ∀ cycle ≤ last, (state cycle irq).ie = 1 →
      (state cycle irq).attrTrig = 0b01 ∧ (state cycle irq).attrShv = 1 ∧
        (irq, .setup (state cycle irq).ctl) ∈ ops) ∧
    ∀ irq, config (state last irq) =
      (opsOn irq ops).foldl (fun state op => op.leaves state) (config (start (intAddr irq))) := by
  intro state
  rw [runIrqs_eq] at performs
  have armed : AllArmed (fun irq => (start (intAddr irq)).ie = 0)
      (fun irq level => (irq, .setup level) ∈ ops) fun irq => config (start (intAddr irq)) := by
    intro irq disabled enabled
    exact absurd (disabled.symm.trans enabled) (by decide)
  have through := armedThrough_irqCalls ops (fun _ _ inside => inside) armed
  obtain ⟨safe, ends⟩ := callAll_configs subregDocumented regDocumented _ through start input
    _ _ _ _ performs fun _ => rfl
  refine ⟨fun irq disabled cycle within enabled =>
    safe cycle (Nat.zero_le cycle) within irq disabled enabled, fun irq => ?_⟩
  rw [← foldl_irqCalls irq ops fun irq => config (start (intAddr irq))]
  exact ends irq

/-- `setup_irq` on interrupt 3, with an edge after each of its writes. -/
def setupInput (cycle : Nat) : BankInput :=
  let ip _ := ⟨decide (cycle % 3 = 2), 1⟩
  match cycle with
  | 0 | 3 | 6 | 9 | 12 => readAt (intAddr 3) ip
  | 1 => writeAt (intAddr 3) 0x00C20000 ip
  | 4 => writeAt (intAddr 3) 0x00C20001 ip
  | 7 => writeAt (intAddr 3) 0x00C30001 ip
  | 10 => writeAt (intAddr 3) 0x88C30001 ip
  | 13 => writeAt (intAddr 3) 0x88C30101 ip
  | _ => idleAt ip

-- another interrupt is enabled already, without a set-up
def enabledBefore (addr : BitVec 32) : State :=
  { (circuit storage).reset with ie := if addr = intAddr 5 then 1 else 0 }

theorem setupInput_performs :
    Performs (bank storage) bankBus Idle enabledBefore setupInput
      (runIrqs wordReg [(3, .setup 0x88)]) 0 [0, 1, 3, 4, 6, 7, 9, 10, 12, 13] 14 () := by
  have reads : ∀ cycle ∈ [0, 3, 6, 9, 12], bankBus.reads (intAddr 3) (setupInput cycle) := by
    intro cycle inside
    simp only [List.mem_cons, List.not_mem_nil, or_false] at inside
    obtain rfl | rfl | rfl | rfl | rfl := inside <;> exact ⟨rfl, rfl, rfl, rfl⟩
  rw [runIrqs_eq]
  refine .read (reads 0 (by decide)) (.write ?_ (.wait rfl ?_))
  · exact ⟨rfl, rfl⟩
  refine .read (reads 3 (by decide)) (.write ?_ (.wait rfl ?_))
  · exact ⟨rfl, rfl⟩
  refine .read (reads 6 (by decide)) (.write ?_ (.wait rfl ?_))
  · exact ⟨rfl, rfl⟩
  refine .read (reads 9 (by decide)) (.write ?_ (.wait rfl ?_))
  · exact ⟨rfl, rfl⟩
  refine .read (reads 12 (by decide)) (.write ?_ (.done () 14))
  exact ⟨rfl, rfl⟩

theorem irqs_set_up_edges :
    let state := fun cycle => (bank storage).runFrom enabledBefore setupInput cycle
    (∀ cycle ≤ 14, (state cycle (intAddr 3)).ie = 1 →
      (state cycle (intAddr 3)).attrTrig = 0b01 ∧ (state cycle (intAddr 3)).attrShv = 1 ∧
        (state cycle (intAddr 3)).ctl = 0x88) ∧
    config (state 14 (intAddr 3)) = ⟨0, 1, 0, 1, 0b01, 0b11, 0x88⟩ ∧
    config (state 14 (intAddr 5)) = ⟨0, 1, 0, 0, 0b00, 0b11, 0⟩ := by
  intro state
  obtain ⟨armed, leaves⟩ := irqs_set_up storage_documented wordReg_documented _ _ _
    setupInput_performs
  refine ⟨fun cycle within enabled => ?_, leaves 3, leaves 5⟩
  obtain ⟨trig, shv, set⟩ := armed 3 rfl cycle within enabled
  refine ⟨trig, shv, ?_⟩
  simpa using set

end Atalanta.Clic
