import Atalanta.Library.BitField
import Atalanta.Library.BusProgram

/-! The register block of one interrupt, `clicint_reg_top.sv`. -/

namespace Atalanta.Clic

open BitField BusProgram Clocked

/-- The storage element of a field, `prim_subreg` with software access RW: software writes
`wd`, hardware writes `d`. -/
structure PrimSubreg where
  next : {width : Nat} → (we : Bool) → (wd : BitVec width) → (de : Bool) → (d q : BitVec width) →
    BitVec width

structure PrimSubreg.Documented (subreg : PrimSubreg) : Prop where
  software : ∀ {width : Nat} (wd : BitVec width) de d q, subreg.next true wd de d q = wd
  hardware : ∀ {width : Nat} (wd : BitVec width) d q, subreg.next false wd true d q = d
  hold : ∀ {width : Nat} (wd : BitVec width) d q, subreg.next false wd false d q = q

def storage : PrimSubreg := ⟨fun we wd de d q => if we then wd else if de then d else q⟩

theorem storage_documented : storage.Documented :=
  ⟨fun _ _ _ _ => rfl, fun _ _ _ => rfl, fun _ _ _ => rfl⟩

structure State where
  ip : BitVec 1
  ie : BitVec 1
  pcs : BitVec 1
  attrShv : BitVec 1
  attrTrig : BitVec 2
  attrMode : BitVec 2
  ctl : BitVec 8
deriving DecidableEq, Repr

structure RegReq where
  valid : Bool
  write : Bool
  addr : BitVec 2
  wdata : BitVec 32
  wstrb : BitVec 4

structure HwToReg where
  de : Bool
  d : BitVec 1

structure Input where
  regReq : RegReq
  ip : HwToReg
  devmode : Bool

structure Output where
  rdata : BitVec 32
  error : Bool
  ready : Bool

def clicintOffset : BitVec 2 := 0x0#2
def clicintPermit : BitVec 4 := 0b1111#4

def regWe (req : RegReq) : Bool := req.valid && req.write
def regRe (req : RegReq) : Bool := req.valid && !req.write
def addrHit (req : RegReq) : Bool := decide (req.addr = clicintOffset)
def addrmiss (req : RegReq) : Bool := if regRe req || regWe req then !addrHit req else false

def wrErr (req : RegReq) : Bool :=
  regWe req && (addrHit req && decide (clicintPermit &&& ~~~req.wstrb ≠ 0))

def regError (input : Input) : Bool :=
  (input.devmode && addrmiss input.regReq) || wrErr input.regReq

def fieldWe (input : Input) : Bool :=
  addrHit input.regReq && regWe input.regReq && !regError input

def next (subreg : PrimSubreg) (state : State) (input : Input) : State :=
  let we := fieldWe input
  let regWdata := input.regReq.wdata
  { ip := subreg.next we (regWdata.extractLsb' 0 1) input.ip.de input.ip.d state.ip
    ie := subreg.next we (regWdata.extractLsb' 8 1) false 0 state.ie
    pcs := subreg.next we (regWdata.extractLsb' 12 1) false 0 state.pcs
    attrShv := subreg.next we (regWdata.extractLsb' 16 1) false 0 state.attrShv
    attrTrig := subreg.next we (regWdata.extractLsb' 17 2) false 0 state.attrTrig
    attrMode := subreg.next we (regWdata.extractLsb' 22 2) false 0 state.attrMode
    ctl := subreg.next we (regWdata.extractLsb' 24 8) false 0 state.ctl }

def word (state : State) : BitVec 32 :=
  let regRdataNext := 0#32
  let regRdataNext := putField regRdataNext 0 state.ip
  let regRdataNext := putField regRdataNext 8 state.ie
  let regRdataNext := putField regRdataNext 12 state.pcs
  let regRdataNext := putField regRdataNext 16 state.attrShv
  let regRdataNext := putField regRdataNext 17 state.attrTrig
  let regRdataNext := putField regRdataNext 22 state.attrMode
  putField regRdataNext 24 state.ctl

def out (state : State) (input : Input) : Output where
  rdata := if addrHit input.regReq then word state else BitVec.allOnes 32
  error := regError input
  ready := true

def circuit (subreg : PrimSubreg) : Circuit State Input Output where
  reset := ⟨0, 0, 0, 0, 0, 3, 0⟩
  next := next subreg
  out := out

def stored (regWdata : BitVec 32) : State where
  ip := regWdata.extractLsb' 0 1
  ie := regWdata.extractLsb' 8 1
  pcs := regWdata.extractLsb' 12 1
  attrShv := regWdata.extractLsb' 16 1
  attrTrig := regWdata.extractLsb' 17 2
  attrMode := regWdata.extractLsb' 22 2
  ctl := regWdata.extractLsb' 24 8

variable {subreg : PrimSubreg} (documented : subreg.Documented) (state : State) (input : Input)

include documented in
theorem next_of_fieldWe (we : fieldWe input = true) :
    next subreg state input = stored input.regReq.wdata := by
  simp only [next, we, documented.software, stored]

include documented in
theorem next_of_not_fieldWe (notWe : fieldWe input = false) :
    next subreg state input =
      { state with ip := if input.ip.de then input.ip.d else state.ip } := by
  simp only [next, notWe, documented.hold]
  cases event : input.ip.de with
  | true => simp only [documented.hardware, if_true]
  | false => simp only [documented.hold, Bool.false_eq_true, if_false]

theorem fieldWe_of_idle (idle : input.regReq.valid = false) : fieldWe input = false := by
  simp [fieldWe, regWe, idle]

theorem fieldWe_of_read (reading : input.regReq.write = false) : fieldWe input = false := by
  simp [fieldWe, regWe, reading]

theorem fieldWe_of_write (valid : input.regReq.valid = true) (writing : input.regReq.write = true)
    (hit : input.regReq.addr = clicintOffset) (whole : input.regReq.wstrb = 0b1111#4) :
    fieldWe input = true := by
  simp [fieldWe, regWe, regError, addrmiss, wrErr, addrHit, valid, writing, hit, whole]

/-- The fields of the interrupt word, as the driver sees them. -/
inductive Field
  | ip
  | ie
  | pcs
  | shv
  | trig
  | polarity
  | mode
  | level
deriving DecidableEq, Repr

def Field.lo : Field → Nat
  | .ip => 0
  | .ie => 8
  | .pcs => 12
  | .shv => 16
  | .trig => 17
  | .polarity => 18
  | .mode => 22
  | .level => 24

def Field.length : Field → Nat
  | .mode => 2
  | .level => 8
  | _ => 1

theorem Field.inside (field : Field) : field.lo + field.length ≤ 32 := by
  cases field <;> decide

theorem Field.apart {left right : Field} (different : left ≠ right) :
    left.lo + left.length ≤ right.lo ∨ right.lo + right.length ≤ left.lo := by
  cases left <;> cases right <;> first | exact absurd rfl different | decide

def Field.get (state : State) : (field : Field) → BitVec field.length
  | .ip => state.ip
  | .ie => state.ie
  | .pcs => state.pcs
  | .shv => state.attrShv
  | .trig => state.attrTrig.extractLsb' 0 1
  | .polarity => state.attrTrig.extractLsb' 1 1
  | .mode => state.attrMode
  | .level => state.ctl

def slots (state : State) : List Slot :=
  [⟨0, 1, state.ip⟩, ⟨8, 1, state.ie⟩, ⟨12, 1, state.pcs⟩, ⟨16, 1, state.attrShv⟩,
    ⟨17, 2, state.attrTrig⟩, ⟨22, 2, state.attrMode⟩, ⟨24, 8, state.ctl⟩]

theorem word_eq_putAll (state : State) : word state = putAll 0#32 (slots state) := rfl

theorem slots_apart (state : State) : (slots state).Pairwise Slot.Apart := by
  simp [slots, Slot.Apart]

theorem slots_inside (state : State) : ∀ slot ∈ slots state, slot.lo + slot.length ≤ 32 := by
  simp [slots]

theorem word_slot (state : State) (slot : Slot) (inside : slot ∈ slots state) :
    (word state).extractLsb' slot.lo slot.length = slot.value := by
  rw [word_eq_putAll]
  exact field_putAll _ _ (slots_apart state) slot inside (slots_inside state slot inside)

theorem word_attrTrig (state : State) (bit : Nat) (inside : bit + 1 ≤ 2) :
    (word state).extractLsb' (17 + bit) 1 = state.attrTrig.extractLsb' bit 1 := by
  have both := word_slot state ⟨17, 2, state.attrTrig⟩ (by simp [slots])
  rw [← field_field (word state) 17 bit inside, both]

theorem word_field (state : State) (field : Field) :
    (word state).extractLsb' field.lo field.length = field.get state := by
  cases field with
  | ip => exact word_slot state ⟨0, 1, state.ip⟩ (by simp [slots])
  | ie => exact word_slot state ⟨8, 1, state.ie⟩ (by simp [slots])
  | pcs => exact word_slot state ⟨12, 1, state.pcs⟩ (by simp [slots])
  | shv => exact word_slot state ⟨16, 1, state.attrShv⟩ (by simp [slots])
  | mode => exact word_slot state ⟨22, 2, state.attrMode⟩ (by simp [slots])
  | level => exact word_slot state ⟨24, 8, state.ctl⟩ (by simp [slots])
  | trig => exact word_attrTrig state 0 (by decide)
  | polarity => exact word_attrTrig state 1 (by decide)

theorem stored_field (regWdata : BitVec 32) (field : Field) :
    field.get (stored regWdata) = regWdata.extractLsb' field.lo field.length := by
  cases field
  case trig => exact field_field regWdata 17 0 (by decide)
  case polarity => exact field_field regWdata 17 1 (by decide)
  all_goals rfl

/-- A write stores every field of the word; what it drops are bits between the fields. -/
theorem field_word_stored (regWdata : BitVec 32) (field : Field) :
    (word (stored regWdata)).extractLsb' field.lo field.length =
      regWdata.extractLsb' field.lo field.length := by
  rw [word_field, stored_field]

structure BankInput where
  addr : BitVec 32
  regReq : RegReq
  ip : BitVec 32 → HwToReg
  devmode : Bool

/-- A request reaches only the block at its address; every block sees its own hardware. -/
def blockInput (input : BankInput) (block : BitVec 32) : Input where
  regReq := if input.addr = block then input.regReq else { input.regReq with valid := false }
  ip := input.ip block
  devmode := input.devmode

def bank (subreg : PrimSubreg) : Circuit (BitVec 32 → State) BankInput Output where
  reset _ := (circuit subreg).reset
  next blocks input block := next subreg (blocks block) (blockInput input block)
  out blocks input := out (blocks input.addr) (blockInput input input.addr)

def bankBus : Bus BankInput Output (BitVec 32) (BitVec 32) where
  reads addr input :=
    input.addr = addr ∧ input.regReq.valid = true ∧ input.regReq.write = false ∧
      input.regReq.addr = clicintOffset
  writes addr data input :=
    input.addr = addr ∧ input.regReq = ⟨true, true, clicintOffset, data, 0b1111#4⟩
  data := Output.rdata

def Idle (input : BankInput) : Prop := input.regReq.valid = false

def HwToReg.update (event : HwToReg) (ip : BitVec 1) : BitVec 1 := if event.de then event.d else ip

section Bank

variable (blocks : BitVec 32 → State) (input : BankInput)

theorem bank_data {addr : BitVec 32} (reads : bankBus.reads addr input) :
    bankBus.data ((bank subreg).out blocks input) = word (blocks addr) := by
  obtain ⟨rfl, _, _, hit⟩ := reads
  simp [bankBus, bank, out, blockInput, addrHit, hit]

include documented in
theorem bank_write {addr data : BitVec 32} (writes : bankBus.writes addr data input) :
    (bank subreg).next blocks input addr = stored data := by
  obtain ⟨rfl, request⟩ := writes
  have we : fieldWe (blockInput input input.addr) = true := by
    apply fieldWe_of_write <;> simp [blockInput, request]
  have written := next_of_fieldWe documented (blocks input.addr) _ we
  simpa [bank, blockInput, request] using written

def Spared (block : BitVec 32) (input : BankInput) : Prop :=
  input.addr = block → input.regReq.valid = true → input.regReq.write = false

include documented in
theorem bank_spared {block : BitVec 32} (spared : Spared block input) :
    (bank subreg).next blocks input block =
      { blocks block with ip := (input.ip block).update (blocks block).ip } := by
  have notWe : fieldWe (blockInput input block) = false := by
    by_cases here : input.addr = block
    · cases valid : input.regReq.valid with
      | false => exact fieldWe_of_idle _ (by simp [blockInput, here, valid])
      | true => exact fieldWe_of_read _ (by simp [blockInput, here, spared here valid])
    · exact fieldWe_of_idle _ (by simp [blockInput, here])
  exact next_of_not_fieldWe documented (blocks block) _ notWe

end Bank

theorem Idle.spared {input : BankInput} (idle : Idle input) (block : BitVec 32) :
    Spared block input := by
  intro _ valid
  rw [Idle, valid] at idle
  cases idle

def idleAt (ip : BitVec 32 → HwToReg) : BankInput :=
  ⟨0, ⟨false, false, 0, 0, 0⟩, ip, false⟩

def readAt (addr : BitVec 32) (ip : BitVec 32 → HwToReg) : BankInput :=
  ⟨addr, ⟨true, false, clicintOffset, 0, 0⟩, ip, false⟩

def writeAt (addr data : BitVec 32) (ip : BitVec 32 → HwToReg) : BankInput :=
  ⟨addr, ⟨true, true, clicintOffset, data, 0b1111⟩, ip, false⟩

theorem spared_of_reads {input : BankInput} {addr : BitVec 32}
    (reads : bankBus.reads addr input) (block : BitVec 32) : Spared block input :=
  fun _ _ => reads.2.2.1

theorem spared_of_writes {input : BankInput} {addr data block : BitVec 32}
    (writes : bankBus.writes addr data input) (other : addr ≠ block) : Spared block input :=
  fun here => absurd (writes.1.symm.trans here) other

end Atalanta.Clic
