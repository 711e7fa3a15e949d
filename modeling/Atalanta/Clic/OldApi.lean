import Atalanta.Clic.Setters

/-! The old API of `hello_rt`, and the one of `clic.h` that it is based on, on the registers of the
interrupts: what they do there are calls of the driver. -/

namespace Atalanta.Clic

open BitField Bsp BusProgram

/-- The calls of the driver that give a field of the headers a value. -/
def IntregField.calls (val : BitVec 32) : IntregField → List Call
  | .ip => [if val.getLsbD 0 then .pend else .unpend]
  | .ie => [if val.getLsbD 0 then .enable else .disable]
  | .pcs => [.setPcs (val.getLsbD 0)]
  | .shv => [.setShv (val.getLsbD 0)]
  | .trig =>
    [.setTrig (.decode (val.extractLsb' 0 1)), .setPolarity (.decode (val.extractLsb' 1 1))]
  | .ctl => [.setLevel (val.setWidth 8)]

def changeAll (calls : List Call) (word : BitVec 32) : BitVec 32 :=
  calls.foldl (fun word call => call.change word) word

theorem setWidth_one (val : BitVec 32) : val.setWidth 1 = BitVec.ofBool (val.getLsbD 0) :=
  field_bit val 0

theorem pend_change (pending : Bool) (word : BitVec 32) :
    (if pending then Call.pend else Call.unpend).change word =
      putField word 0 (BitVec.ofBool pending) := by
  cases pending <;> rfl

theorem enable_change (enabled : Bool) (word : BitVec 32) :
    (if enabled then Call.enable else Call.disable).change word =
      putField word 8 (BitVec.ofBool enabled) := by
  cases enabled <;> rfl

theorem trig_change (bits : BitVec 2) (word : BitVec 32) :
    changeAll [.setTrig (.decode (bits.extractLsb' 0 1)),
      .setPolarity (.decode (bits.extractLsb' 1 1))] word = putField word 17 bits := by
  rw [putField_split word 17 bits 1 1 rfl]
  change putField (putField word 17 (Trig.decode _).repr) 18 (Polarity.decode _).repr = _
  rw [Trig.repr_decode, Polarity.repr_decode]

theorem put_eq_changeAll (field : IntregField) {val word : BitVec 32}
    (takes : field.Takes val word) : field.put val word = changeAll (field.calls val) word := by
  rw [IntregField.put, (orField_eq_putField_iff word _ _ val).mpr takes]
  cases field with
  | ip =>
      refine (congrArg (putField word 0) (setWidth_one val)).trans ?_
      exact (pend_change (val.getLsbD 0) word).symm
  | ie =>
      refine (congrArg (putField word 8) (setWidth_one val)).trans ?_
      exact (enable_change (val.getLsbD 0) word).symm
  | pcs => exact congrArg (putField word 12) (setWidth_one val)
  | shv => exact congrArg (putField word 16) (setWidth_one val)
  | ctl => rfl
  | trig =>
      have low : (val.setWidth 2).extractLsb' 0 1 = val.extractLsb' 0 1 :=
        field_field val 0 0 (by decide)
      have high : (val.setWidth 2).extractLsb' 1 1 = val.extractLsb' 1 1 :=
        field_field val 0 1 (by decide)
      have both := trig_change (val.setWidth 2) word
      rw [low, high] at both
      exact both.symm

def SameFields (left right : BitVec 32) : Prop :=
  ∀ field : Field,
    left.extractLsb' field.lo field.length = right.extractLsb' field.lo field.length

theorem SameFields.change {left right : BitVec 32} (same : SameFields left right) (call : Call) :
    SameFields (call.change left) (call.change right) := by
  intro field
  by_cases own : field = call.field
  · subst own
    exact (field_putField left _ _ call.field.inside).trans
      (field_putField right _ _ call.field.inside).symm
  · have kept (word : BitVec 32) := field_putField_apart word call.field.lo call.bits field.lo
      field.inside (Field.apart own)
    exact (kept left).trans ((same field).trans (kept right).symm)

theorem SameFields.changeAll {left right : BitVec 32} (same : SameFields left right)
    (calls : List Call) : SameFields (changeAll calls left) (changeAll calls right) := by
  induction calls generalizing left right with
  | nil => exact same
  | cons call calls ih => exact ih (same.change call)

theorem SameFields.word_stored {left right : BitVec 32} (same : SameFields left right) :
    word (stored left) = word (stored right) := by
  have first : left.getLsbD 17 = right.getLsbD 17 :=
    getLsbD_of_field ((same .trig).trans (field_bit right 17))
  have second : left.getLsbD 18 = right.getLsbD 18 :=
    getLsbD_of_field ((same .polarity).trans (field_bit right 18))
  have both : left.extractLsb' 17 2 = right.extractLsb' 17 2 := by
    apply BitVec.eq_of_getLsbD_eq
    intro bit within
    rw [BitVec.getLsbD_extractLsb', BitVec.getLsbD_extractLsb']
    obtain rfl | rfl : bit = 0 ∨ bit = 1 := by omega
    · rw [first]
    · rw [second]
  have states : stored left = stored right := by
    simp only [stored, State.mk.injEq]
    exact ⟨same .ip, same .ie, same .pcs, same .shv, both, same .mode, same .level⟩
  rw [states]

/-- Calls on one interrupt store their changes one after the other as they store them at once. -/
theorem foldl_setWord_calls (number : BitVec 16) (call : Call) (calls : List Call)
    (words : BitVec 32 → BitVec 32) :
    ((call :: calls).map (number, ·)).foldl setWord words =
      Function.update words (intAddr number)
        (word (stored (changeAll (call :: calls) (words (intAddr number))))) := by
  induction calls generalizing call words with
  | nil => rfl
  | cons second calls ih =>
      have later := ih second (setWord words (number, call))
      have same : SameFields (setWord words (number, call) (intAddr number))
          (call.change (words (intAddr number))) := by
        rw [setWord, Function.update_self]
        exact field_word_stored _
      rw [(same.changeAll (second :: calls)).word_stored, setWord, Function.update_idem] at later
      exact later

theorem calls_cons (field : IntregField) (val : BitVec 32) :
    ∃ call calls, field.calls val = call :: calls := by
  cases field <;> exact ⟨_, _, rfl⟩

theorem foldl_fieldCalls (number : BitVec 16) (field : IntregField) {val : BitVec 32}
    {words : BitVec 32 → BitVec 32} (takes : field.Takes val (words (intAddr number))) :
    ((field.calls val).map (number, ·)).foldl setWord words =
      Function.update words (intAddr number)
        (word (stored (field.put val (words (intAddr number))))) := by
  obtain ⟨call, calls, listed⟩ := calls_cons field val
  rw [put_eq_changeAll field takes, listed]
  exact foldl_setWord_calls number call calls words

def driverCalls (set : BitVec 16 × HelloRt.Call) : List (BitVec 16 × Call) :=
  (set.2.field.calls set.2.val).map (set.1, ·)

theorem foldl_driverCalls (set : BitVec 16 × HelloRt.Call) (words : BitVec 32 → BitVec 32) :
    (driverCalls set).foldl setWord words =
      Function.update words (intAddr set.1)
        (word (stored (set.2.field.put set.2.val (words (intAddr set.1))))) :=
  foldl_fieldCalls set.1 set.2.field (helloRt_takes _ set.2)

end Atalanta.Clic

namespace Atalanta.HelloRt

open Bsp Clic

def runAll (overflowChecks : Bool) : List (BitVec 16 × Call) → Driver (Except Panic Unit)
  | [] => return .ok ()
  | (number, call) :: calls => do
      let result ← call.run overflowChecks (number.setWidth 32)
      orPanic result fun _ => runAll overflowChecks calls

/-- The address of an interrupt is that of the driver, and no step towards it overflows. -/
theorem intregAddr_eq (overflowChecks : Bool) (number : BitVec 16) :
    intregAddr overflowChecks (number.setWidth 32) = .ok (intAddr number) := by
  have small := number.isLt
  have four : (0x4 : BitVec 32).toNat = 4 := rfl
  have first : (0x1000 : BitVec 32).toNat = 0x1000 := rfl
  have base : clicBaseAddr.toNat = 0x50000 := rfl
  have word : (number.setWidth 32).toNat = number.toNat := by
    rw [BitVec.toNat_setWidth, Nat.mod_eq_of_lt (by omega)]
  have scaled : (0x4 * number.setWidth 32).toNat = 4 * number.toNat := by
    rw [BitVec.toNat_mul, four, word, Nat.mod_eq_of_lt (by omega)]
  have offset : (0x1000 + 0x4 * number.setWidth 32).toNat = 0x1000 + 4 * number.toNat := by
    rw [BitVec.toNat_add, first, scaled, Nat.mod_eq_of_lt (by omega)]
  rw [intregAddr, clicIntregOffset, checkedMul_of_lt overflowChecks (by rw [four, word]; omega),
    Except.bind,
    checkedAdd_of_lt overflowChecks (by rw [first, scaled]; omega), Except.bind,
    checkedAdd_of_lt overflowChecks (by rw [offset, base]; omega), intAddr, intSeparation,
    intOffset, BitVec.mul_comm, BitVec.add_assoc]

theorem runAll_cons (overflowChecks : Bool) (number : BitVec 16) (call : Call)
    (calls : List (BitVec 16 × Call)) :
    runAll overflowChecks ((number, call) :: calls) =
      (do writeField (intAddr number) call.field.bit call.field.width call.val
          runAll overflowChecks calls) := by
  rw [runAll, call.run_eq, modifyIntreg, intregAddr_eq, orPanic, call.field.mask_eq,
    modifyU32_eq overflowChecks _ _ _ call.field.inWord]
  rfl

end Atalanta.HelloRt

namespace Atalanta.Clic

open BitField Bsp BusProgram

/-- A program of the old API leaves the registers as its calls of the driver do. -/
theorem runAll_triple {subreg : PrimSubreg} (documented : subreg.Documented)
    (overflowChecks : Bool) (sets : List (BitVec 16 × HelloRt.Call))
    (words : BitVec 32 → BitVec 32) :
    Triple (bank subreg) stillBus Quiet (fun _ => True) (Words words)
      (HelloRt.runAll overflowChecks sets) fun result blocks =>
        result = .ok () ∧ Words ((sets.flatMap driverCalls).foldl setWord words) blocks := by
  induction sets generalizing words with
  | nil => exact Triple.done (words_stable documented) fun _ holds => ⟨rfl, holds⟩
  | cons set sets ih =>
      obtain ⟨number, call⟩ := set
      have rest := ih ((driverCalls (number, call)).foldl setWord words)
      rw [← List.foldl_append, ← List.flatMap_cons, foldl_driverCalls] at rest
      rw [HelloRt.runAll_cons]
      exact Triple.bind (modify_triple documented (intAddr number) (call.field.put call.val))
        fun _ => rest

/-- After any calls of the old API, none of which panics, the getters of the driver return what was
last set. -/
theorem oldApi_fields {subreg : PrimSubreg} {reg : Reg} (subregDocumented : subreg.Documented)
    (regDocumented : reg.Documented) (start : BitVec 32 → State) (input : Nat → BankInput)
    (number : BitVec 16) (valid : (start (intAddr number)).attrMode ≠ 0b10) :
    ∃ initial : Fields, Holds (word (start (intAddr number))) initial ∧
      ∀ (overflowChecks : Bool) (sets : List (BitVec 16 × HelloRt.Call)) accesses last result,
        Performs (bank subreg) stillBus Quiet start input (HelloRt.runAll overflowChecks sets) 0
          accesses last result →
        result = .ok () ∧
          Answers subreg reg start input last number
            ((callsOn number (sets.flatMap driverCalls)).foldl
              (fun fields call => call.apply fields) initial) := by
  refine ⟨_, holds_start valid, fun overflowChecks sets accesses last result performs => ?_⟩
  obtain ⟨returned, ends⟩ :=
    (runAll_triple subregDocumented overflowChecks sets _ start input _ _ _ _ performs
      fun _ => rfl).2
  exact ⟨returned, answers_of_holds subregDocumented regDocumented ends
    (foldl_setWord_holds (sets.flatMap driverCalls) (holds_start valid))⟩

theorem oldApi_fields_set_level :
    ∃ result, Performs (bank storage) stillBus Quiet (fun _ => (circuit storage).reset)
        setLevelInput (HelloRt.runAll true [(3, .setLevel 0x88)]) 0 [0, 1] 2 result ∧
      result = .ok () ∧ Shows (INTCTL.level wordReg (intAddr 3)) 0x88 ∧
      Shows (INTATTR.mode wordReg (intAddr 3)) (some .machine) := by
  obtain ⟨initial, holds, after⟩ := oldApi_fields storage_documented wordReg_documented
    (fun _ => (circuit storage).reset) setLevelInput 3 (by decide)
  obtain ⟨result, performs⟩ : ∃ result, Performs (bank storage) stillBus Quiet
      (fun _ => (circuit storage).reset) setLevelInput
      (HelloRt.runAll true [(3, .setLevel 0x88)]) 0 [0, 1] 2 result := by
    rw [HelloRt.runAll_cons]
    exact ⟨_, .read ⟨⟨rfl, rfl, rfl, rfl⟩, fun _ => rfl⟩ (.write ⟨⟨by rfl, rfl⟩, fun _ => rfl⟩
      (.done _ 2))⟩
  obtain ⟨returned, answers⟩ := after true _ _ _ _ performs
  exact ⟨result, performs, returned, shows_level holds answers rfl rfl⟩

end Atalanta.Clic

namespace Atalanta.SmokeTests

open Bsp Clic

def runAll : List (BitVec 16 × Call) → Driver (Option Unit)
  | [] => return some ()
  | (number, call) :: calls => do
      let result ← call.run (number.setWidth 32)
      match result with
      | none => return none
      | some () => runAll calls

theorem intregAddr_eq (number : BitVec 16) : intregAddr (number.setWidth 32) = intAddr number := by
  rw [intregAddr, intAddr, intSeparation, intOffset, BitVec.mul_comm, BitVec.add_assoc]

theorem runAll_cons (number : BitVec 16) (call : Call) (calls : List (BitVec 16 × Call)) :
    runAll ((number, call) :: calls) =
      (do writeField (intAddr number) call.field.bit call.field.width call.val
          runAll calls) := by
  rw [runAll, call.run_eq, writeIntreg, intregAddr_eq, call.field.mask_eq,
    writeWord_eq _ _ _ call.field.inWord]
  rfl

/-- Where the trigger is one of the enumeration's, or two of them combined. -/
def Call.Short : Call → Prop
  | .setTrig trig => trig.toNat < 4
  | _ => True

theorem Call.Short.takes {call : Call} (short : call.Short) (orig : BitVec 32) :
    call.field.Takes call.val orig := by
  cases call with
  | setPriority prio => exact IntregField.takes_ctl prio orig
  | setTrig trig => exact IntregField.takes_of_short orig short
  | _ => exact IntregField.takes_of_short orig (by decide)

def driverCalls (set : BitVec 16 × Call) : List (BitVec 16 × Clic.Call) :=
  (set.2.field.calls set.2.val).map (set.1, ·)

end Atalanta.SmokeTests

namespace Atalanta.Clic

open BitField Bsp BusProgram

theorem foldl_shortCalls {set : BitVec 16 × SmokeTests.Call} (short : set.2.Short)
    (words : BitVec 32 → BitVec 32) :
    (SmokeTests.driverCalls set).foldl setWord words =
      Function.update words (intAddr set.1)
        (word (stored (set.2.field.put set.2.val (words (intAddr set.1))))) :=
  foldl_fieldCalls set.1 set.2.field (short.takes _)

theorem runAll_short {subreg : PrimSubreg} (documented : subreg.Documented)
    (sets : List (BitVec 16 × SmokeTests.Call)) (short : ∀ set ∈ sets, set.2.Short)
    (words : BitVec 32 → BitVec 32) :
    Triple (bank subreg) stillBus Quiet (fun _ => True) (Words words)
      (SmokeTests.runAll sets) fun result blocks =>
        result = some () ∧
          Words ((sets.flatMap SmokeTests.driverCalls).foldl setWord words) blocks := by
  induction sets generalizing words with
  | nil => exact Triple.done (words_stable documented) fun _ holds => ⟨rfl, holds⟩
  | cons set sets ih =>
      obtain ⟨first, others⟩ := List.forall_mem_cons.mp short
      have rest := ih others ((SmokeTests.driverCalls set).foldl setWord words)
      rw [← List.foldl_append, ← List.flatMap_cons, foldl_shortCalls first] at rest
      rw [SmokeTests.runAll_cons]
      exact Triple.bind (modify_triple documented (intAddr set.1) (set.2.field.put set.2.val))
        fun _ => rest

/-- So it is after any calls of `clic.h` with triggers of two bits, none of which shifts too far. -/
theorem clicH_fields {subreg : PrimSubreg} {reg : Reg} (subregDocumented : subreg.Documented)
    (regDocumented : reg.Documented) (start : BitVec 32 → State) (input : Nat → BankInput)
    (number : BitVec 16) (valid : (start (intAddr number)).attrMode ≠ 0b10) :
    ∃ initial : Fields, Holds (word (start (intAddr number))) initial ∧
      ∀ (sets : List (BitVec 16 × SmokeTests.Call)), (∀ set ∈ sets, set.2.Short) →
        ∀ accesses last result,
          Performs (bank subreg) stillBus Quiet start input (SmokeTests.runAll sets) 0 accesses
            last result →
          result = some () ∧
            Answers subreg reg start input last number
              ((callsOn number (sets.flatMap SmokeTests.driverCalls)).foldl
                (fun fields call => call.apply fields) initial) := by
  refine ⟨_, holds_start valid, fun sets short accesses last result performs => ?_⟩
  obtain ⟨returned, ends⟩ :=
    (runAll_short subregDocumented sets short _ start input _ _ _ _ performs fun _ => rfl).2
  exact ⟨returned, answers_of_holds subregDocumented regDocumented ends
    (foldl_setWord_holds (sets.flatMap SmokeTests.driverCalls) (holds_start valid))⟩

theorem clicH_fields_set_priority :
    ∃ result, Performs (bank storage) stillBus Quiet (fun _ => (circuit storage).reset)
        setLevelInput (SmokeTests.runAll [(3, .setPriority 0x88)]) 0 [0, 1] 2 result ∧
      result = some () ∧ Shows (INTCTL.level wordReg (intAddr 3)) 0x88 ∧
      Shows (INTATTR.mode wordReg (intAddr 3)) (some .machine) := by
  obtain ⟨initial, holds, after⟩ := clicH_fields storage_documented wordReg_documented
    (fun _ => (circuit storage).reset) setLevelInput 3 (by decide)
  obtain ⟨result, performs⟩ : ∃ result, Performs (bank storage) stillBus Quiet
      (fun _ => (circuit storage).reset) setLevelInput
      (SmokeTests.runAll [(3, .setPriority 0x88)]) 0 [0, 1] 2 result := by
    rw [SmokeTests.runAll_cons]
    exact ⟨_, .read ⟨⟨rfl, rfl, rfl, rfl⟩, fun _ => rfl⟩ (.write ⟨⟨by rfl, rfl⟩, fun _ => rfl⟩
      (.done _ 2))⟩
  obtain ⟨returned, answers⟩ := after _ (by simp [SmokeTests.Call.Short]) _ _ _ performs
  exact ⟨result, performs, returned, shows_level holds answers rfl rfl⟩

end Atalanta.Clic
