import Atalanta.Clic.Driver
import Mathlib.Logic.Function.Basic

/-! The fields of an interrupt as independent registers of the driver. -/

namespace Atalanta.Clic

open BitField Bsp BusProgram Clocked

structure Fields where
  mode : Mode
  trig : Trig
  polarity : Polarity
  shv : Bool
  level : BitVec 8
  pcs : Bool
  enabled : Bool
  pending : Bool
deriving DecidableEq, Repr

def Call.apply (call : Call) (fields : Fields) : Fields :=
  match call with
  | .setMode mode => { fields with mode }
  | .setTrig trig => { fields with trig }
  | .setPolarity polarity => { fields with polarity }
  | .setShv shv => { fields with shv }
  | .setLevel level => { fields with level }
  | .setPcs pcs => { fields with pcs }
  | .enable => { fields with enabled := true }
  | .disable => { fields with enabled := false }
  | .pend => { fields with pending := true }
  | .unpend => { fields with pending := false }

def Fields.bits (fields : Fields) : (field : Field) → BitVec field.length
  | .ip => BitVec.ofBool fields.pending
  | .ie => BitVec.ofBool fields.enabled
  | .pcs => BitVec.ofBool fields.pcs
  | .shv => BitVec.ofBool fields.shv
  | .trig => fields.trig.repr
  | .polarity => fields.polarity.repr
  | .mode => fields.mode.repr.setWidth 2
  | .level => fields.level

theorem apply_bits_own (call : Call) (fields : Fields) :
    (call.apply fields).bits call.field = call.bits := by
  cases call <;> rfl

theorem apply_bits_other (call : Call) (fields : Fields) {field : Field}
    (other : field ≠ call.field) : (call.apply fields).bits field = fields.bits field := by
  cases call <;> cases field <;> first | rfl | exact absurd rfl other

def Holds (word : BitVec 32) (fields : Fields) : Prop :=
  ∀ field : Field, word.extractLsb' field.lo field.length = fields.bits field

theorem Holds.change {word : BitVec 32} {fields : Fields} (holds : Holds word fields)
    (call : Call) : Holds (call.change word) (call.apply fields) := by
  intro field
  by_cases own : field = call.field
  · subst own
    rw [apply_bits_own]
    exact field_putField word _ _ call.field.inside
  · rw [apply_bits_other call fields own, ← holds field]
    exact field_putField_apart word _ _ _ field.inside (Field.apart own)

theorem Holds.stored {regWdata : BitVec 32} {fields : Fields} (holds : Holds regWdata fields) :
    Holds (word (stored regWdata)) fields := by
  intro field
  rw [field_word_stored, holds field]

def Mode.decode (bits : BitVec 2) : Mode :=
  if bits = 0b00 then .user else if bits = 0b01 then .supervisor else .machine

def Trig.decode (bits : BitVec 1) : Trig := if bits = 0b0 then .level else .edge

def Polarity.decode (bits : BitVec 1) : Polarity := if bits = 0b0 then .pos else .neg

def Fields.decode (word : BitVec 32) : Fields where
  mode := .decode (word.extractLsb' 22 2)
  trig := .decode (word.extractLsb' 17 1)
  polarity := .decode (word.extractLsb' 18 1)
  shv := word.getLsbD 16
  level := word.extractLsb' 24 8
  pcs := word.getLsbD 12
  enabled := word.getLsbD 8
  pending := word.getLsbD 0

theorem Mode.repr_decode : ∀ bits : BitVec 2, bits ≠ 0b10 →
    (Mode.decode bits).repr.setWidth 2 = bits := by decide

theorem Trig.repr_decode : ∀ bits : BitVec 1, (Trig.decode bits).repr = bits := by decide

theorem Polarity.repr_decode : ∀ bits : BitVec 1, (Polarity.decode bits).repr = bits := by decide

theorem Trig.repr_eq (trig : Trig) : trig.repr = BitVec.ofBool (decide (trig = .edge)) := by
  cases trig <;> rfl

theorem Polarity.repr_eq (polarity : Polarity) :
    polarity.repr = BitVec.ofBool (decide (polarity = .neg)) := by
  cases polarity <;> rfl

theorem field_bit (word : BitVec 32) (bit : Nat) :
    word.extractLsb' bit 1 = BitVec.ofBool (word.getLsbD bit) := by
  apply BitVec.eq_of_getLsbD_eq
  intro other within
  obtain rfl : other = 0 := by omega
  simp

theorem holds_decode {word : BitVec 32} (valid : word.extractLsb' 22 2 ≠ 0b10) :
    Holds word (.decode word) := by
  intro field
  cases field with
  | ip => exact field_bit word 0
  | ie => exact field_bit word 8
  | pcs => exact field_bit word 12
  | shv => exact field_bit word 16
  | trig => exact (Trig.repr_decode _).symm
  | polarity => exact (Polarity.repr_decode _).symm
  | mode => exact (Mode.repr_decode _ valid).symm
  | level => rfl

theorem holds_start {state : State} (valid : state.attrMode ≠ 0b10) :
    Holds (word state) (.decode (word state)) := by
  apply holds_decode
  rw [show (word state).extractLsb' 22 2 = _ from word_field _ .mode]
  exact valid

theorem getLsbD_of_field {word : BitVec 32} {bit : Nat} {value : Bool}
    (holds : word.extractLsb' bit 1 = BitVec.ofBool value) : word.getLsbD bit = value := by
  rw [field_bit] at holds
  have low := congrArg (fun bits => bits.getLsbD 0) holds
  simpa using low

def Still (input : BankInput) : Prop := ∀ block, (input.ip block).de = false

def Quiet (input : BankInput) : Prop := Idle input ∧ Still input

def stillBus : Bus BankInput Output (BitVec 32) (BitVec 32) where
  reads addr input := bankBus.reads addr input ∧ Still input
  writes addr data input := bankBus.writes addr data input ∧ Still input
  data := bankBus.data

def Words (words : BitVec 32 → BitVec 32) (blocks : BitVec 32 → State) : Prop :=
  ∀ block, word (blocks block) = words block

section Memory

variable {subreg : PrimSubreg} (documented : subreg.Documented)
  {words : BitVec 32 → BitVec 32}

include documented

theorem word_still {blocks : BitVec 32 → State} {input : BankInput} {block : BitVec 32}
    (still : Still input) (spared : Spared block input) :
    word ((bank subreg).next blocks input block) = word (blocks block) := by
  rw [bank_spared documented blocks input spared, HwToReg.update, if_neg (by simp [still block])]

theorem words_stable :
    Stable (bank subreg) Quiet (fun _ => True) (Words words) where
  kept blocks input quiet holds block := by
    rw [word_still documented quiet.2 (quiet.1.spared block), holds block]
  safe _ _ := trivial

theorem words_read {blocks : BitVec 32 → State} {input : BankInput} {addr : BitVec 32}
    (reads : stillBus.reads addr input) (holds : Words words blocks) :
    stillBus.data ((bank subreg).out blocks input) = words addr ∧
      Words words ((bank subreg).next blocks input) := by
  have data : bankBus.data ((bank subreg).out blocks input) = word (blocks addr) :=
    bank_data blocks input reads.1
  refine ⟨data.trans (holds addr), fun block => ?_⟩
  rw [word_still documented reads.2 (spared_of_reads reads.1 block), holds block]

theorem words_write {blocks : BitVec 32 → State} {input : BankInput} {addr data : BitVec 32}
    (writes : stillBus.writes addr data input) (holds : Words words blocks) :
    Words (Function.update words addr (word (stored data)))
      ((bank subreg).next blocks input) := by
  intro block
  by_cases here : block = addr
  · subst here
    rw [bank_write documented blocks input writes.1, Function.update_self]
  · rw [word_still documented writes.2 (spared_of_writes writes.1 (Ne.symm here)), holds block,
      Function.update_of_ne here]

def ReadAt (words : BitVec 32 → BitVec 32) (ptr data : BitVec 32) (blocks : BitVec 32 → State) :
    Prop :=
  data = words ptr ∧ Words words blocks

theorem readAt_stable {ptr data : BitVec 32} :
    Stable (bank subreg) Quiet (fun _ => True) (ReadAt words ptr data) where
  kept blocks input quiet holds :=
    ⟨holds.1, (words_stable documented).kept blocks input quiet holds.2⟩
  safe _ _ := trivial

theorem query_triple {τ : Type} (ptr : BitVec 32) (result : BitVec 32 → τ) :
    Triple (bank subreg) stillBus Quiet (fun _ => True) (Words words) (query ptr result)
      fun value blocks => value = result (words ptr) ∧ Words words blocks := by
  have returns : ∀ data, Triple (bank subreg) stillBus Quiet (fun _ => True)
      (ReadAt words ptr data) (.done (result data))
      fun value blocks => value = result (words ptr) ∧ Words words blocks := by
    intro data
    refine Triple.done (readAt_stable documented) fun blocks holds => ?_
    exact ⟨congrArg result holds.1, holds.2⟩
  exact Triple.read (words_stable documented)
    (fun _ _ reads holds => words_read documented reads holds)
    returns

theorem modify_triple (ptr : BitVec 32) (change : BitVec 32 → BitVec 32) :
    Triple (bank subreg) stillBus Quiet (fun _ => True) (Words words) (modify ptr change)
      fun _ => Words (Function.update words ptr (word (stored (change (words ptr))))) := by
  have writes : ∀ data, Triple (bank subreg) stillBus Quiet (fun _ => True)
      (ReadAt words ptr data) (.write ptr (change data) (.done ()))
      fun _ => Words (Function.update words ptr (word (stored (change (words ptr))))) := by
    intro data
    have ends : Triple (bank subreg) stillBus Quiet (fun _ => True)
        (Words (Function.update words ptr (word (stored (change (words ptr)))))) (.done ())
        fun _ => Words (Function.update words ptr (word (stored (change (words ptr))))) :=
      Triple.done (words_stable documented) fun _ holds => holds
    refine Triple.write (readAt_stable documented) ?_ ends
    rintro blocks input writes ⟨rfl, holds⟩
    exact words_write documented writes holds
  exact Triple.read (words_stable documented)
    (fun _ _ reads holds => words_read documented reads holds)
    writes

end Memory

def setWord (words : BitVec 32 → BitVec 32) (set : BitVec 16 × Call) : BitVec 32 → BitVec 32 :=
  Function.update words (intAddr set.1) (word (stored (set.2.change (words (intAddr set.1)))))

theorem callAll_triple {subreg : PrimSubreg} {reg : Reg} (subregDocumented : subreg.Documented)
    (regDocumented : reg.Documented) (calls : List (BitVec 16 × Call))
    (words : BitVec 32 → BitVec 32) :
    Triple (bank subreg) stillBus Quiet (fun _ => True) (Words words) (callAll reg calls)
      fun _ => Words (calls.foldl setWord words) := by
  induction calls generalizing words with
  | nil => exact Triple.done (words_stable subregDocumented) fun _ holds => holds
  | cons set calls ih =>
      obtain ⟨number, call⟩ := set
      have first : Triple (bank subreg) stillBus Quiet (fun _ => True) (Words words)
          (call.run reg number) fun _ => Words (setWord words (number, call)) := by
        rw [call.run_eq regDocumented number]
        exact modify_triple subregDocumented (intAddr number) call.change
      exact Triple.bind first fun _ => ih (setWord words (number, call))

def callsOn (number : BitVec 16) (calls : List (BitVec 16 × Call)) : List Call :=
  (calls.filter fun set => set.1 = number).map Prod.snd

theorem setWord_own {words : BitVec 32 → BitVec 32} {number : BitVec 16} {fields : Fields}
    (holds : Holds (words (intAddr number)) fields) (call : Call) :
    Holds (setWord words (number, call) (intAddr number)) (call.apply fields) := by
  rw [setWord, Function.update_self]
  exact (holds.change call).stored

theorem setWord_other (words : BitVec 32 → BitVec 32) {number other : BitVec 16}
    (different : other ≠ number) (call : Call) :
    setWord words (other, call) (intAddr number) = words (intAddr number) :=
  Function.update_of_ne (fun same => different (intAddr_injective same.symm)) _ _

theorem foldl_setWord_holds {number : BitVec 16} (calls : List (BitVec 16 × Call))
    {words : BitVec 32 → BitVec 32} {fields : Fields}
    (holds : Holds (words (intAddr number)) fields) :
    Holds (calls.foldl setWord words (intAddr number))
      ((callsOn number calls).foldl (fun fields call => call.apply fields) fields) := by
  induction calls generalizing words fields with
  | nil => exact holds
  | cons set calls ih =>
      obtain ⟨other, call⟩ := set
      by_cases own : other = number
      · subst own
        have here : callsOn other ((other, call) :: calls) = call :: callsOn other calls := by
          simp [callsOn]
        rw [here]
        exact ih (setWord_own holds call)
      · have elsewhere : callsOn number ((other, call) :: calls) = callsOn number calls := by
          simp [callsOn, own]
        rw [elsewhere]
        exact ih (by rw [setWord_other words own]; exact holds)

theorem foldl_setWord_apart {number : BitVec 16} (calls : List (BitVec 16 × Call))
    (words : BitVec 32 → BitVec 32) (apart : ∀ set ∈ calls, set.1 ≠ number) :
    calls.foldl setWord words (intAddr number) = words (intAddr number) := by
  induction calls generalizing words with
  | nil => rfl
  | cons set calls ih =>
      obtain ⟨other, call⟩ := set
      have different : other ≠ number := apart _ (List.mem_cons_self ..)
      have rest := ih (setWord words (other, call)) fun set inside =>
        apart set (List.mem_cons_of_mem _ inside)
      exact rest.trans (setWord_other words different call)

/-- Whenever the program has run from the cycle on, it has returned the value. -/
def Returns {τ : Type} (subreg : PrimSubreg) (start : BitVec 32 → State)
    (input : Nat → BankInput) (cycle : Nat) (program : Driver τ) (value : τ) : Prop :=
  ∀ accesses last result,
    Performs (bank subreg) stillBus Quiet start input program cycle accesses last result →
    result = value

structure Answers (subreg : PrimSubreg) (reg : Reg) (start : BitVec 32 → State)
    (input : Nat → BankInput) (cycle : Nat) (number : BitVec 16) (fields : Fields) : Prop where
  mode : Returns subreg start input cycle (INTATTR.mode reg (intAddr number)) (some fields.mode)
  trig : Returns subreg start input cycle (INTATTR.trig reg (intAddr number)) fields.trig
  polarity :
    Returns subreg start input cycle (INTATTR.polarity reg (intAddr number)) fields.polarity
  shv : Returns subreg start input cycle (INTATTR.shv reg (intAddr number)) fields.shv
  level : Returns subreg start input cycle (INTCTL.level reg (intAddr number)) fields.level
  isEnabled :
    Returns subreg start input cycle (INTIE.isEnabled reg (intAddr number)) fields.enabled
  isPending :
    Returns subreg start input cycle (INTIP.isPending reg (intAddr number)) fields.pending

section Getters

variable {subreg : PrimSubreg} {reg : Reg} (subregDocumented : subreg.Documented)
  (regDocumented : reg.Documented) {start : BitVec 32 → State} {input : Nat → BankInput}
  {cycle : Nat} {words : BitVec 32 → BitVec 32}

include subregDocumented

theorem query_returns {τ : Type}
    (holds : Words words ((bank subreg).runFrom start input cycle)) (ptr : BitVec 32)
    (result : BitVec 32 → τ) {value : τ} (same : result (words ptr) = value) :
    Returns subreg start input cycle (query ptr result) value := by
  intro accesses last returned performs
  have ends := query_triple subregDocumented ptr result start input _ _ _ _ performs holds
  exact ends.2.1.trans same

omit subregDocumented in
include regDocumented in
theorem readBit_of_field {word : BitVec 32} {bit : Nat} {value : Bool} (inside : bit < 32)
    (holds : word.extractLsb' bit 1 = BitVec.ofBool value) : reg.readBit word bit = value := by
  rw [regDocumented.readBit word bit inside, getLsbD_of_field holds]

include regDocumented

theorem answers_of_holds {number : BitVec 16} {fields : Fields}
    (current : Words words ((bank subreg).runFrom start input cycle))
    (holds : Holds (words (intAddr number)) fields) :
    Answers subreg reg start input cycle number fields where
  mode := by
    have bits : reg.readBits (words (intAddr number)) (6 + 8 * INTATTR.intattrOffset)
        (7 + 8 * INTATTR.intattrOffset) = fields.mode.repr := by
      rw [regDocumented.readBits _ _ _ (by decide) (by decide)]
      refine (congrArg (BitVec.setWidth 32) (holds .mode)).trans ?_
      change (fields.mode.repr.setWidth 2).setWidth 32 = fields.mode.repr
      cases fields.mode <;> rfl
    refine query_returns subregDocumented current _ _ ?_
    simp only [bits]
    cases fields.mode <;> rfl
  trig := by
    have bit : reg.readBit (words (intAddr number)) (1 + 8 * INTATTR.intattrOffset) =
        decide (fields.trig = .edge) :=
      readBit_of_field regDocumented (by decide) ((holds .trig).trans fields.trig.repr_eq)
    refine query_returns subregDocumented current _ _ ?_
    simp only [bit]
    cases fields.trig <;> rfl
  polarity := by
    have bit : reg.readBit (words (intAddr number)) (2 + 8 * INTATTR.intattrOffset) =
        decide (fields.polarity = .neg) :=
      readBit_of_field regDocumented (by decide) ((holds .polarity).trans fields.polarity.repr_eq)
    refine query_returns subregDocumented current _ _ ?_
    simp only [bit]
    cases fields.polarity <;> rfl
  shv :=
    query_returns subregDocumented current _ _
      (readBit_of_field regDocumented (by decide) (holds .shv))
  level := by
    refine query_returns subregDocumented current _ _ ?_
    rw [regDocumented.readBits _ _ _ (by decide) (by decide)]
    refine (congrArg (fun bits => (BitVec.setWidth 32 bits).setWidth 8) (holds .level)).trans ?_
    exact (BitVec.setWidth_setWidth_of_le fields.level (by decide)).trans
      (BitVec.setWidth_eq fields.level)
  isEnabled :=
    query_returns subregDocumented current _ _
      (readBit_of_field regDocumented (by decide) (holds .ie))
  isPending :=
    query_returns subregDocumented current _ _
      (readBit_of_field regDocumented (by decide) (holds .ip))

end Getters

/-- The fields of an interrupt are independent registers: after any calls, every getter returns
what was last set for its field, and calls on other interrupts leave the word as it was. -/
theorem fields_independent {subreg : PrimSubreg} {reg : Reg}
    (subregDocumented : subreg.Documented) (regDocumented : reg.Documented)
    (start : BitVec 32 → State) (input : Nat → BankInput) (number : BitVec 16)
    (valid : (start (intAddr number)).attrMode ≠ 0b10) :
    ∃ initial : Fields, Holds (word (start (intAddr number))) initial ∧
      ∀ (calls : List (BitVec 16 × Call)) accesses last,
        Performs (bank subreg) stillBus Quiet start input (callAll reg calls) 0 accesses last () →
        Answers subreg reg start input last number
            ((callsOn number calls).foldl (fun fields call => call.apply fields) initial) ∧
          ((∀ set ∈ calls, set.1 ≠ number) →
            word ((bank subreg).runFrom start input last (intAddr number)) =
              word (start (intAddr number))) := by
  refine ⟨_, holds_start valid, fun calls accesses last performs => ?_⟩
  have ends : Words (calls.foldl setWord fun block => word (start block))
      ((bank subreg).runFrom start input last) :=
    (callAll_triple subregDocumented regDocumented calls _ start input _ _ _ _ performs
      fun _ => rfl).2
  refine ⟨?_, fun apart => ?_⟩
  · exact answers_of_holds subregDocumented regDocumented ends
      (foldl_setWord_holds calls (holds_start valid))
  · exact (ends (intAddr number)).trans (foldl_setWord_apart calls _ apart)

-- the word of the interrupt is read in every cycle after the call
def setLevelInput : Nat → BankInput
  | 0 => readAt (intAddr 3) fun _ => ⟨false, 0⟩
  | 1 => writeAt (intAddr 3) ((Call.setLevel 0x88).change (word (circuit storage).reset))
      fun _ => ⟨false, 0⟩
  | _ => readAt (intAddr 3) fun _ => ⟨false, 0⟩

theorem setLevel_performs :
    Performs (bank storage) stillBus Quiet (fun _ => (circuit storage).reset) setLevelInput
      (callAll wordReg [(3, .setLevel 0x88)]) 0 [0, 1] 2 () := by
  have reads : stillBus.reads (intAddr 3) (setLevelInput 0) := ⟨⟨rfl, rfl, rfl, rfl⟩, fun _ => rfl⟩
  have writes : stillBus.writes (intAddr 3)
      ((Call.setLevel 0x88).change (word (circuit storage).reset)) (setLevelInput 1) :=
    ⟨⟨rfl, rfl⟩, fun _ => rfl⟩
  exact .read reads (.write writes (.done () 2))

/-- A getter that is called after the level was set returns the value. -/
def Shows {τ : Type} (getter : Driver τ) (value : τ) : Prop :=
  Performs (bank storage) stillBus Quiet (fun _ => (circuit storage).reset) setLevelInput getter 2
    [2] 3 value

theorem shows_of_returns {τ : Type} {result : BitVec 32 → τ} {value : τ}
    (returns : Returns storage (fun _ => (circuit storage).reset) setLevelInput 2
      (query (intAddr 3) result) value) : Shows (query (intAddr 3) result) value := by
  have performs : Shows (query (intAddr 3) result) _ :=
    .read ⟨⟨rfl, rfl, rfl, rfl⟩, fun _ => rfl⟩ (.done _ 3)
  rwa [returns _ _ _ performs] at performs

theorem mode_of_reset {initial : Fields} (holds : Holds (word (circuit storage).reset) initial) :
    initial.mode = .machine := by
  have bits : (word (circuit storage).reset).extractLsb' 22 2 = initial.mode.repr.setWidth 2 :=
    holds .mode
  revert bits
  cases initial.mode with
  | machine => exact fun _ => rfl
  | supervisor => exact fun bits => absurd bits (by decide)
  | user => exact fun bits => absurd bits (by decide)

theorem shows_level {initial fields : Fields}
    (holds : Holds (word (circuit storage).reset) initial)
    (answers : Answers storage wordReg (fun _ => (circuit storage).reset) setLevelInput 2 3 fields)
    (level : fields.level = 0x88) (mode : fields.mode = initial.mode) :
    Shows (INTCTL.level wordReg (intAddr 3)) 0x88 ∧
      Shows (INTATTR.mode wordReg (intAddr 3)) (some .machine) := by
  have set := shows_of_returns answers.level
  have still := shows_of_returns answers.mode
  rw [level] at set
  rw [mode, mode_of_reset holds] at still
  exact ⟨set, still⟩

theorem fields_independent_set_level :
    Shows (INTCTL.level wordReg (intAddr 3)) 0x88 ∧
      Shows (INTATTR.mode wordReg (intAddr 3)) (some .machine) := by
  obtain ⟨initial, holds, after⟩ := fields_independent storage_documented wordReg_documented
    (fun _ => (circuit storage).reset) setLevelInput 3 (by decide)
  exact shows_level holds (after [(3, .setLevel 0x88)] [0, 1] 2 setLevel_performs).1 rfl rfl

end Atalanta.Clic
