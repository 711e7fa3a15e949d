import Atalanta.Interconnect.AddressSpace
import Atalanta.Library.WordMemory
import Atalanta.Obi.SramProgram

/-! The test `memory_sanity.c` on the memory that its accesses reach. What it prints is left out. -/

namespace Atalanta.SmokeTests

open BusProgram ObiSram Routing RtPkg

def sramBtm : BitVec 32 := 0x20000
def sramTop : BitVec 32 := 0x30000

-- the new value of the shift register is the random number too
def rand (lfsr : BitVec 32) : BitVec 32 :=
  let bit := (lfsr >>> 0 ^^^ lfsr >>> 2 ^^^ lfsr >>> 3 ^^^ lfsr >>> 5) &&& 1
  lfsr >>> 1 ||| bit <<< 31

def getRandAddr (rangeStart rangeEnd : BitVec 32) (alligned : Bool) (lfsr : BitVec 32) :
    BitVec 32 :=
  let size := rangeEnd - rangeStart
  let result := rand lfsr % size + rangeStart
  if alligned then result &&& 0xFFFFFFFC else result

abbrev MemoryTest := Program Access (BitVec 32)

structure Sanity where
  lfsr : BitVec 32
  errorCount : BitVec 32
deriving DecidableEq, Repr

-- what was read, and the number of errors
def writeReadbackWord (errorCount addr value : BitVec 32) :
    MemoryTest (BitVec 32 × BitVec 32) := do
  BusProgram.writeWord ⟨.word, addr⟩ value
  let result ← readWord ⟨.word, addr⟩
  return (result, if result ≠ value then errorCount + 1 else errorCount)

def writeReadbackByte (errorCount addr : BitVec 32) (value : BitVec 8) :
    MemoryTest (BitVec 8 × BitVec 32) := do
  BusProgram.writeWord ⟨.byte, addr⟩ (value.setWidth 32)
  let result ← readWord ⟨.byte, addr⟩
  return (result.setWidth 8, if result.setWidth 8 ≠ value then errorCount + 1 else errorCount)

/-- The arguments of a call, whose order of evaluation C leaves open. -/
def drawArguments (addrFirst alligned : Bool) (lfsr : BitVec 32) : BitVec 32 × BitVec 32 :=
  if addrFirst then (getRandAddr sramBtm sramTop alligned lfsr, rand (rand lfsr))
  else (getRandAddr sramBtm sramTop alligned (rand lfsr), rand lfsr)

def wordRounds (addrFirst : Bool) : Nat → Sanity → MemoryTest Sanity
  | 0, sanity => return sanity
  | rounds + 1, sanity => do
    let (addr, value) := drawArguments addrFirst true sanity.lfsr
    let (_, errorCount) ← writeReadbackWord sanity.errorCount addr value
    wordRounds addrFirst rounds ⟨rand (rand sanity.lfsr), errorCount⟩

def byteRounds (addrFirst : Bool) : Nat → Sanity → MemoryTest Sanity
  | 0, sanity => return sanity
  | rounds + 1, sanity => do
    let (addr, value) := drawArguments addrFirst false sanity.lfsr
    let (_, errorCount) ← writeReadbackByte sanity.errorCount addr (value.setWidth 8)
    byteRounds addrFirst rounds ⟨rand (rand sanity.lfsr), errorCount⟩

/-- The test with its number of iterations and the order of evaluation at its two calls. -/
def memorySanity (iterCnt : Nat) (wordAddrFirst byteAddrFirst : Bool) (lfsr : BitVec 32) :
    MemoryTest (BitVec 32) := do
  let sanity ← wordRounds wordAddrFirst iterCnt ⟨lfsr, 0⟩
  let sanity ← byteRounds byteAddrFirst iterCnt sanity
  return sanity.errorCount

/-! Addresses -/

theorem getRandAddr_inside (alligned : Bool) (lfsr : BitVec 32) :
    sramRule.Contains (getRandAddr sramBtm sramTop alligned lfsr).toNat ∧
      (alligned = true → 4 ∣ (getRandAddr sramBtm sramTop alligned lfsr).toNat) := by
  have range : sramTop - sramBtm = 0x10000 := by decide
  have start : sramBtm.toNat = 0x20000 := rfl
  have size : (0x10000 : BitVec 32).toNat = 0x10000 := rfl
  have within : (rand lfsr % 0x10000).toNat < 0x10000 := by
    rw [BitVec.toNat_umod, size]
    exact Nat.mod_lt _ (by decide)
  have result : (rand lfsr % 0x10000 + sramBtm).toNat =
      (rand lfsr % 0x10000).toNat + 0x20000 := by
    rw [BitVec.toNat_add, start]
    omega
  have bounds (addr : Nat) (above : 0x20000 ≤ addr) (below : addr < 0x30000) :
      sramRule.Contains addr := ⟨above, .inl below⟩
  unfold getRandAddr
  rw [range]
  cases alligned with
  | false =>
      rw [if_neg Bool.false_ne_true]
      exact ⟨bounds _ (by omega) (by omega), nofun⟩
  | true =>
      rw [if_pos rfl, WordMemory.wordAddr_toNat]
      exact ⟨bounds _ (by omega) (by omega), fun _ => Nat.dvd_mul_left 4 _⟩

/-! What the memory answers -/

theorem exec_writeReadbackWord (errorCount addr value : BitVec 32) (memory : WordMemory.Memory) :
    (writeReadbackWord errorCount addr value).exec bytes memory =
      ((value, errorCount), WordMemory.store memory addr value) := by
  have answer : bytes.read (bytes.write memory ⟨.word, addr⟩ value) ⟨.word, addr⟩ =
      (value, WordMemory.store memory addr value) :=
    Prod.ext (WordMemory.load_store_same memory addr value) rfl
  rw [writeReadbackWord, exec_bind_of bytes (exec_writeWord bytes ⟨.word, addr⟩ value memory),
    exec_bind_of bytes ((exec_readWord bytes _ _).trans answer), exec_pure,
    if_neg (not_not.mpr rfl)]

theorem exec_writeReadbackByte (errorCount addr : BitVec 32) (value : BitVec 8)
    (memory : WordMemory.Memory) :
    (writeReadbackByte errorCount addr value).exec bytes memory =
      ((value, errorCount), fun byte => if byte = addr then value else memory byte) := by
  have narrow : (value.setWidth 32).setWidth 8 = value :=
    (BitVec.setWidth_setWidth_of_le value (by decide)).trans (BitVec.setWidth_eq value)
  have answer : bytes.read (bytes.write memory ⟨.byte, addr⟩ (value.setWidth 32)) ⟨.byte, addr⟩ =
      (value.setWidth 32, fun byte => if byte = addr then value else memory byte) := by
    simp only [bytes, narrow, if_true]
  rw [writeReadbackByte, exec_bind_of bytes (exec_writeWord bytes ⟨.byte, addr⟩ _ memory),
    exec_bind_of bytes ((exec_readWord bytes _ _).trans answer), exec_pure, narrow,
    if_neg (not_not.mpr rfl)]

theorem wordRounds_errors (addrFirst : Bool) (rounds : Nat) (sanity : Sanity)
    (memory : WordMemory.Memory) :
    ((wordRounds addrFirst rounds sanity).exec bytes memory).1.errorCount = sanity.errorCount := by
  induction rounds generalizing sanity memory with
  | zero => rfl
  | succ rounds ih =>
      rw [wordRounds, exec_bind_of bytes (exec_writeReadbackWord _ _ _ memory)]
      exact ih _ _

theorem byteRounds_errors (addrFirst : Bool) (rounds : Nat) (sanity : Sanity)
    (memory : WordMemory.Memory) :
    ((byteRounds addrFirst rounds sanity).exec bytes memory).1.errorCount = sanity.errorCount := by
  induction rounds generalizing sanity memory with
  | zero => rfl
  | succ rounds ih =>
      rw [byteRounds, exec_bind_of bytes (exec_writeReadbackByte _ _ _ memory)]
      exact ih _ _

theorem memorySanity_errors (iterCnt : Nat) (wordAddrFirst byteAddrFirst : Bool)
    (lfsr : BitVec 32) (memory : WordMemory.Memory) :
    ((memorySanity iterCnt wordAddrFirst byteAddrFirst lfsr).exec bytes memory).1 = 0 := by
  rw [memorySanity, exec_bind, exec_bind, exec_pure, byteRounds_errors, wordRounds_errors]

/-! Where the accesses go -/

/-- An access that the only bank of the SRAM serves, and that fits it. -/
def OnSram (access : Access) : Prop :=
  sramRule.Contains access.addr.toNat ∧ (access.size = .word → 4 ∣ access.addr.toNat)

theorem OnSram.fits {access : Access} (onSram : OnSram access) :
    Fits (2 ^ 14) (BitVec.ofNat 32 sramRule.start) access := by
  obtain ⟨inside, aligned⟩ := onSram
  refine ⟨⟨inside.1, ?_⟩, aligned⟩
  exact inside.lt_stop (by decide)

theorem drawArguments_inside (addrFirst alligned : Bool) (lfsr : BitVec 32) :
    sramRule.Contains (drawArguments addrFirst alligned lfsr).1.toNat ∧
      (alligned = true → 4 ∣ (drawArguments addrFirst alligned lfsr).1.toNat) := by
  cases addrFirst with
  | true => exact getRandAddr_inside alligned lfsr
  | false => exact getRandAddr_inside alligned (rand lfsr)

theorem wordRounds_uses (addrFirst : Bool) (rounds : Nat) (sanity : Sanity) :
    (wordRounds addrFirst rounds sanity).Uses OnSram := by
  induction rounds generalizing sanity with
  | zero => exact trivial
  | succ rounds ih =>
      obtain ⟨inside, aligned⟩ := drawArguments_inside addrFirst true sanity.lfsr
      exact ⟨⟨inside, fun _ => aligned rfl⟩, ⟨inside, fun _ => aligned rfl⟩, fun _ => ih _⟩

theorem byteRounds_uses (addrFirst : Bool) (rounds : Nat) (sanity : Sanity) :
    (byteRounds addrFirst rounds sanity).Uses OnSram := by
  induction rounds generalizing sanity with
  | zero => exact trivial
  | succ rounds ih =>
      obtain ⟨inside, _⟩ := drawArguments_inside addrFirst false sanity.lfsr
      exact ⟨⟨inside, nofun⟩, ⟨inside, nofun⟩, fun _ => ih _⟩

theorem memorySanity_uses (iterCnt : Nat) (wordAddrFirst byteAddrFirst : Bool)
    (lfsr : BitVec 32) : (memorySanity iterCnt wordAddrFirst byteAddrFirst lfsr).Uses OnSram :=
  (wordRounds_uses _ _ _).bind fun _ => (byteRounds_uses _ _ _).bind fun _ => trivial

/-- The test accesses the SRAM alone, which the crossbar routes to its bank, and counts no error
there, for any seed, number of iterations, contents and timing. -/
theorem memorySanity_passes (fabric : Fabric) (documented : fabric.Documented)
    (debug : DebugState) (iterCnt : Nat) (wordAddrFirst byteAddrFirst : Bool) (lfsr : BitVec 32) :
    ((memorySanity iterCnt wordAddrFirst byteAddrFirst lfsr).Uses fun access =>
      DataAccess fabric debug access.addr .lsu (.sram 0 (cell sramRule access.addr))) ∧
    ∀ start obi first accesses last errors,
      Performs (answering (sramSizeBytes / 4 / numMemBanks) (BitVec.ofNat 32 sramRule.start)) obiBus
        NoRequest start obi (memorySanity iterCnt wordAddrFirst byteAddrFirst lfsr) first accesses
        last errors → errors = 0 := by
  have uses := memorySanity_uses iterCnt wordAddrFirst byteAddrFirst lfsr
  refine ⟨?_, fun start obi first accesses last errors performs => ?_⟩
  · refine uses.mono fun access onSram => ?_
    have notRom : ¬romRule.Contains access.addr.toNat := fun rom =>
      absurd (same_range (by decide) (by decide) onSram.1 rom) (by decide)
    exact data_access_named documented (.sram onSram.1) notRom .lsu
  · have serves := @serves_bytes 14 (BitVec.ofNat 32 sramRule.start) (by decide)
    have ends := (serves.performs (uses.mono fun _ => OnSram.fits) performs).1
    exact (congrArg Prod.fst ends).symm.trans (memorySanity_errors _ _ _ _ _)

def sanityRequests : Nat → ObiReq
  | 0 => .write 0x27D64 0b1111 0xB2BFBEB3
  | 1 => .read 0x27D64
  | 2 => .write 0x2DF59 0b0010 0x0000AC00
  | 3 => { ObiReq.read 0x2DF59 with be := 0b0010 }
  | _ => .idle

theorem sanityRequests_perform (start : State) :
    ∃ errors, Performs (answering (sramSizeBytes / 4 / numMemBanks)
      (BitVec.ofNat 32 sramRule.start)) obiBus NoRequest start sanityRequests
      (memorySanity 1 true true 0xCAFEFACE) 0 [0, 1, 2, 3] 4 errors := by
  have first : drawArguments true true 0xCAFEFACE = (0x27D64, 0xB2BFBEB3) := by decide
  have second : drawArguments true false (rand (rand 0xCAFEFACE)) = (0x2DF59, 0x2CAFEFAC) := by
    decide
  have lanes : ∀ i : Fin 4, (0b0010#4).getLsbD i = true → lane 0x0000AC00 i = 0xAC := by decide
  unfold memorySanity wordRounds byteRounds
  rw [first]
  refine ⟨_, .write ?_ (.read ?_ (.write ?_ (.read ?_ (.done _ 4))))⟩
  · exact ⟨rfl, rfl, rfl, rfl, fun _ _ => rfl⟩
  · exact ⟨rfl, rfl, rfl, rfl⟩
  · change obiBus.writes ⟨.byte, (drawArguments true false (rand (rand 0xCAFEFACE))).1⟩
      (((drawArguments true false (rand (rand 0xCAFEFACE))).2.setWidth 8).setWidth 32) _
    rw [second]
    exact ⟨rfl, rfl, rfl, rfl, lanes⟩
  · change obiBus.reads ⟨.byte, (drawArguments true false (rand (rand 0xCAFEFACE))).1⟩ _
    rw [second]
    exact ⟨rfl, rfl, rfl, rfl⟩

theorem memorySanity_passes_once :
    Performs (answering (sramSizeBytes / 4 / numMemBanks) (BitVec.ofNat 32 sramRule.start)) obiBus
      NoRequest (resetWith fun _ => 0x5A5A5A5A) sanityRequests
      (memorySanity 1 true true 0xCAFEFACE) 0 [0, 1, 2, 3] 4 0 := by
  obtain ⟨errors, performs⟩ := sanityRequests_perform (resetWith fun _ => 0x5A5A5A5A)
  have none : errors = 0 :=
    (memorySanity_passes firstMatchFabric firstMatchFabric_documented running 1 true true
      0xCAFEFACE).2 _ _ _ _ _ _ performs
  exact none ▸ performs

end Atalanta.SmokeTests
