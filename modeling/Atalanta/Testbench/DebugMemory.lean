import Atalanta.Library.Device
import Atalanta.Testbench.JtagPreload

/-! Words read and written through the system bus access of the debug module: `jtag_mm_read`,
`jtag_mm_write` and `jtag_memory_test` of `Testbench.h`. What they print is left out. -/

namespace Atalanta.DebugMemory

open BusProgram WordMemory
open JtagPreload (sbcs sbAddr0 sbData0)

abbrev DmiTask := Task (BitVec 8) (BitVec 32)

def abstractCs : BitVec 8 := 0x16
def sbAddr1 : BitVec 8 := 0x3a

section Tasks

variable (polls : Nat)

/-- A loop of `jtag_write`, with a bound on its rounds. -/
def waitClear (fatal : BitVec 32 → Bool) (csrAddr : BitVec 8) (busy : Nat) : Nat → DmiTask Unit
  | 0 => failure
  | polls + 1 => do
    let status ← OptionT.lift (readWord csrAddr)
    if fatal status then failure
    else if status.getLsbD busy then waitClear fatal csrAddr busy polls
    else return ()

def waitIf (waits : Bool) (fatal : BitVec 32 → Bool) (csrAddr : BitVec 8) (busy : Nat) :
    DmiTask Unit :=
  if waits then waitClear fatal csrAddr busy polls else return ()

/-- What the tasks `jtag_write` of `Testbench.h` and `vip_rt_top.sv` have in common. -/
def writeWaiting (cmdFatal sbaFatal : BitVec 32 → Bool) (csrAddr : BitVec 8) (data : BitVec 32)
    (waitCmd waitSba : Bool) : DmiTask Unit := do
  OptionT.lift (writeWord csrAddr data)
  waitIf polls waitCmd cmdFatal abstractCs 12
  waitIf polls waitSba sbaFatal sbcs 21

-- errors are printed and nothing else
def jtagWrite : BitVec 8 → BitVec 32 → (waitCmd waitSba : Bool) → DmiTask Unit :=
  writeWaiting polls (fun _ => false) fun _ => false

def jtagMmRead (addr : BitVec 64) : DmiTask (BitVec 32) := do
  jtagWrite polls sbcs 0x140000 false true
  jtagWrite polls sbAddr1 ((addr <<< 32).setWidth 32) false false
  jtagWrite polls sbAddr0 (addr.setWidth 32) false false
  OptionT.lift (readWord sbData0)

def jtagMmWrite (addr : BitVec 64) (data : BitVec 32) : DmiTask Unit := do
  jtagWrite polls sbcs 0x40000 false true
  jtagWrite polls sbAddr1 ((addr <<< 32).setWidth 32) false false
  jtagWrite polls sbAddr0 (addr.setWidth 32) false false
  jtagWrite polls sbData0 data false false

def spmSize : BitVec 32 := 0x8000
def spmStart : BitVec 32 := 0x1000
def numAccs : Nat := 20

def randomAddr (random : BitVec 32) : BitVec 32 := (random % spmSize &&& 0xFFFFFFFC) + spmStart

/-- `rand` is what the calls of the random number generator return, two of them in each round. -/
def memoryTestLoop (rand : Nat → BitVec 32) : (rounds : Nat) → (errorCounter : BitVec 32) →
    DmiTask (BitVec 32)
  | 0, errorCounter => return errorCounter
  | rounds + 1, errorCounter => do
    let randomData := rand 0
    let addr := (randomAddr (rand 1)).setWidth 64
    jtagMmWrite polls addr randomData
    let resultData ← jtagMmRead polls addr
    memoryTestLoop (fun call => rand (call + 2)) rounds
      (if resultData ≠ randomData then errorCounter + 1 else errorCounter)

def jtagMemoryTest (rand : Nat → BitVec 32) : DmiTask (BitVec 32) :=
  memoryTestLoop polls rand numAccs 0

end Tasks

/-! The debug module -/

structure SystemBus where
  words : Bool
  readOnAddr : Bool
  readOnData : Bool
  autoIncrement : Bool
  error : BitVec 3
  busyError : Bool
  address : BitVec 32
  data : BitVec 32
  memory : Memory

namespace SystemBus

def alignmentError : BitVec 3 := 3

-- no error is pending: only then the bus is accessed
def Clear (bus : SystemBus) : Prop := bus.error = 0 ∧ bus.busyError = false

instance (bus : SystemBus) : Decidable bus.Clear := inferInstanceAs (Decidable (_ ∧ _))

def configure (bus : SystemBus) (word : BitVec 32) : SystemBus :=
  { bus with
    words := decide (word.extractLsb' 17 3 = 2)
    readOnAddr := word.getLsbD 20
    readOnData := word.getLsbD 15
    autoIncrement := word.getLsbD 16
    error := bus.error &&& ~~~word.extractLsb' 12 3
    busyError := bus.busyError && !word.getLsbD 22 }

/-- One access, after which the address may advance. -/
def access (bus : SystemBus) (perform : SystemBus → SystemBus) : SystemBus :=
  if ¬bus.Clear then bus
  else if bus.address.toNat % 4 = 0 then
    { perform bus with
      address := if bus.autoIncrement then bus.address + 4 else bus.address }
  else { bus with error := alignmentError }

def fetch (bus : SystemBus) : SystemBus := { bus with data := load bus.memory bus.address }

def put (bus : SystemBus) : SystemBus :=
  { bus with memory := store bus.memory bus.address bus.data }

def setAddress (bus : SystemBus) (word : BitVec 32) : SystemBus :=
  if bus.readOnAddr then { bus with address := word }.access fetch else { bus with address := word }

def setData (bus : SystemBus) (word : BitVec 32) : SystemBus :=
  if bus.Clear then { bus with data := word }.access put else bus

@[simp] theorem configure_memory (bus : SystemBus) (word : BitVec 32) :
    (bus.configure word).memory = bus.memory := rfl

end SystemBus

/-! Sessions -/

inductive Call
  | read (addr : BitVec 64)
  | write (addr : BitVec 64) (data : BitVec 32)
deriving DecidableEq, Repr

namespace Call

-- the upper half of an address goes nowhere
def target : Call → BitVec 32
  | .read addr => addr.setWidth 32
  | .write addr _ => addr.setWidth 32

def Aligned (call : Call) : Prop := call.target.toNat % 4 = 0

instance (call : Call) : Decidable call.Aligned := inferInstanceAs (Decidable (_ = _))

def program (polls : Nat) : Call → DmiTask (Option (BitVec 32))
  | .read addr => do
    let value ← jtagMmRead polls addr
    return some value
  | .write addr data => do
    jtagMmWrite polls addr data
    return none

def answer (memory : Memory) : Call → Option (BitVec 32)
  | .read addr => some (load memory (addr.setWidth 32))
  | .write _ _ => none

def apply (memory : Memory) : Call → Memory
  | .read _ => memory
  | .write addr data => store memory (addr.setWidth 32) data

end Call

def session (polls : Nat) : List Call → DmiTask (List (Option (BitVec 32)))
  | [] => return []
  | call :: calls => do
    let answer ← call.program polls
    let answers ← session polls calls
    return answer :: answers

/-- What a memory of words answers to the calls. -/
def answers (memory : Memory) : List Call → List (Option (BitVec 32))
  | [] => []
  | call :: calls => call.answer memory :: answers (call.apply memory) calls

def memoryAfter (memory : Memory) (calls : List Call) : Memory := calls.foldl Call.apply memory

/-- What one call does to the bus: nothing is stored once an error is pending. -/
structure Does (call : Call) (before after : SystemBus) (answer : Option (BitVec 32)) : Prop where
  memory : after.memory =
    if before.Clear ∧ call.Aligned then call.apply before.memory else before.memory
  clear : after.Clear ↔ before.Clear ∧ call.Aligned
  answer : before.Clear → call.Aligned → answer = call.answer before.memory

theorem configure_clear (bus : SystemBus) {word : BitVec 32} (keeps : word.extractLsb' 12 3 = 0)
    (leaves : word.getLsbD 22 = false) : (bus.configure word).Clear ↔ bus.Clear := by
  change bus.error &&& ~~~word.extractLsb' 12 3 = 0 ∧
    (bus.busyError && !word.getLsbD 22) = false ↔ _
  rw [keeps, leaves, Bool.not_false, Bool.and_true]
  exact Iff.of_eq (congrArg (· ∧ _) (congrArg (· = 0) BitVec.and_allOnes))

section Access

variable {bus : SystemBus} {perform : SystemBus → SystemBus}

theorem access_pending (pending : ¬bus.Clear) : bus.access perform = bus := if_pos pending

theorem access_aligned (clear : bus.Clear) (aligned : bus.address.toNat % 4 = 0) :
    bus.access perform =
      { perform bus with
        address := if bus.autoIncrement then bus.address + 4 else bus.address } := by
  rw [SystemBus.access, if_neg (not_not.mpr clear), if_pos aligned]

theorem access_misaligned (clear : bus.Clear) (misaligned : bus.address.toNat % 4 ≠ 0) :
    bus.access perform = { bus with error := SystemBus.alignmentError } := by
  rw [SystemBus.access, if_neg (not_not.mpr clear), if_neg misaligned]

end Access

theorem alignmentError_pending {bus : SystemBus} (failed : bus.error = SystemBus.alignmentError) :
    ¬bus.Clear := fun clear => absurd (failed.symm.trans clear.1) (by decide)

theorem Does.of_cases {call : Call} {before after : SystemBus} {answer : Option (BitVec 32)}
    (pending : ¬before.Clear → after.memory = before.memory ∧ ¬after.Clear)
    (aligned : before.Clear → call.Aligned →
      after.memory = call.apply before.memory ∧ after.Clear ∧ answer = call.answer before.memory)
    (misaligned : before.Clear → ¬call.Aligned →
      after.memory = before.memory ∧ after.error = SystemBus.alignmentError) :
    Does call before after answer := by
  by_cases clear : before.Clear
  · by_cases fits : call.Aligned
    · obtain ⟨memory, still, answered⟩ := aligned clear fits
      refine ⟨?_, iff_of_true still ⟨clear, fits⟩, fun _ _ => answered⟩
      rw [memory, if_pos ⟨clear, fits⟩]
    · obtain ⟨memory, failed⟩ := misaligned clear fits
      refine ⟨?_, iff_of_false (alignmentError_pending failed) fun fine => fits fine.2,
        fun _ called => absurd called fits⟩
      rw [memory, if_neg fun fine => fits fine.2]
  · obtain ⟨memory, still⟩ := pending clear
    refine ⟨?_, iff_of_false still fun fine => clear fine.1, fun none => absurd none clear⟩
    rw [memory, if_neg fun fine => clear fine.1]

theorem setAddress_modes (bus : SystemBus) (word : BitVec 32) :
    (bus.setAddress word).readOnData = bus.readOnData ∧
      (bus.setAddress word).autoIncrement = bus.autoIncrement := by
  unfold SystemBus.setAddress SystemBus.access
  split
  · split
    · exact ⟨rfl, rfl⟩
    · split
      · exact ⟨rfl, rfl⟩
      · exact ⟨rfl, rfl⟩
  · exact ⟨rfl, rfl⟩

def SystemBus.addressed (bus : SystemBus) (addr : BitVec 32) : SystemBus :=
  { bus with address := addr }

theorem read_does (bus : SystemBus) (addr : BitVec 64) :
    Does (.read addr) bus ((bus.configure 0x140000).setAddress (addr.setWidth 32))
      (some ((bus.configure 0x140000).setAddress (addr.setWidth 32)).data) := by
  have same : ((bus.configure 0x140000).addressed (addr.setWidth 32)).Clear ↔ bus.Clear :=
    configure_clear bus (by decide) (by decide)
  have address : (bus.configure 0x140000).setAddress (addr.setWidth 32) =
      ((bus.configure 0x140000).addressed (addr.setWidth 32)).access .fetch := rfl
  rw [address]
  refine .of_cases (fun pending => ?_) (fun clear aligned => ?_) fun clear misaligned => ?_
  · rw [access_pending (same.not.mpr pending)]
    exact ⟨rfl, same.not.mpr pending⟩
  · rw [access_aligned (same.mpr clear) aligned]
    exact ⟨rfl, same.mpr clear, rfl⟩
  · rw [access_misaligned (same.mpr clear) misaligned]
    exact ⟨rfl, rfl⟩

theorem write_does (bus : SystemBus) (addr : BitVec 64) (data : BitVec 32) :
    Does (.write addr data) bus
      (((bus.configure 0x40000).setAddress (addr.setWidth 32)).setData data) none := by
  have same : ((bus.configure 0x40000).addressed (addr.setWidth 32)).Clear ↔ bus.Clear :=
    configure_clear bus (by decide) (by decide)
  have address : (bus.configure 0x40000).setAddress (addr.setWidth 32) =
      (bus.configure 0x40000).addressed (addr.setWidth 32) := rfl
  have same' : ({ (bus.configure 0x40000).addressed (addr.setWidth 32) with
      data := data } : SystemBus).Clear ↔ bus.Clear := same
  rw [address, SystemBus.setData]
  refine .of_cases (fun pending => ?_) (fun clear aligned => ?_) fun clear misaligned => ?_
  · rw [if_neg (same.not.mpr pending)]
    exact ⟨rfl, same.not.mpr pending⟩
  · rw [if_pos (same.mpr clear), access_aligned (same'.mpr clear) aligned]
    exact ⟨rfl, same.mpr clear, rfl⟩
  · rw [if_pos (same.mpr clear), access_misaligned (same'.mpr clear) misaligned]
    exact ⟨rfl, rfl⟩

theorem randomAddr_spm (random : BitVec 32) :
    (randomAddr random).toNat % 4 = 0 ∧ 0x1000 ≤ (randomAddr random).toNat ∧
      (randomAddr random).toNat < 0x9000 := by
  have size : spmSize.toNat = 0x8000 := rfl
  have start : spmStart.toNat = 0x1000 := rfl
  have within : (random % spmSize).toNat < 0x8000 := by
    rw [BitVec.toNat_umod, size]
    exact Nat.mod_lt _ (by decide)
  have masked := wordAddr_toNat (random % spmSize)
  have sum : (randomAddr random).toNat = (random % spmSize).toNat / 4 * 4 + 0x1000 := by
    rw [randomAddr, BitVec.toNat_add, masked, start]
    omega
  omega

-- an error of the bus, as SBCS shows it
def sbaErr (status : BitVec 32) : Bool := status.extractLsb' 12 3 ≠ 0 || status.getLsbD 22

section Session

variable {τ : Type} (device : Device τ (BitVec 8) (BitVec 32)) (view : τ → SystemBus)
  (busy : BitVec 8 → τ → Nat) (isMemory : BitVec 32 → Prop)

/-- A register may be read as busy as often as its measure says. -/
def Polled (csrAddr : BitVec 8) (bit : Nat) : Prop :=
  ∀ state, (device.read state csrAddr).1.getLsbD bit = true →
    busy csrAddr (device.read state csrAddr).2 < busy csrAddr state

/-- What the debug specification says of 32-bit accesses to memory, where one that is under way may
be seen in any number of polls but is over before the bus is accessed anew. The bus is seen as that
access leaves it. -/
structure Documented : Prop where
  configure : ∀ state word, view (device.write state sbcs word) = (view state).configure word
  status : ∀ state, view (device.read state sbcs).2 = view state ∧
    ((view state).Clear → sbaErr (device.read state sbcs).1 = false)
  busBusy : Polled device busy sbcs 21
  command : ∀ state, view (device.read state abstractCs).2 = view state
  commandBusy : Polled device busy abstractCs 12
  upper : ∀ state word, view (device.write state sbAddr1 word) = view state
  address : ∀ state word, (view state).words = true → isMemory word →
    view (device.write state sbAddr0 word) = (view state).setAddress word
  data : ∀ state word, (view state).words = true → isMemory (view state).address →
    view (device.write state sbData0 word) = (view state).setData word
  read : ∀ state, (view state).readOnData = false → (view state).autoIncrement = false →
    view (device.read state sbData0).2 = view state ∧
      ((view state).Clear → (device.read state sbData0).1 = (view state).data)

variable {device view busy isMemory}

theorem waitIf_ends {good : τ → Prop} {fatal : BitVec 32 → Bool} {csrAddr : BitVec 8} {bit : Nat}
    (fine : ∀ state, good state →
      fatal (device.read state csrAddr).1 = false ∧ good (device.read state csrAddr).2)
    (polled : Polled device busy csrAddr bit) {polls : Nat} {state : τ} (holds : good state)
    (enough : busy csrAddr state < polls) (waits : Bool) :
    ∃ after, (waitIf polls waits fatal csrAddr bit).exec device state = (some (), after) ∧
      good after := by
  cases waits with
  | false => exact ⟨state, rfl, holds⟩
  | true =>
      change ∃ after, (waitClear fatal csrAddr bit polls).exec device state = _ ∧ _
      induction polls generalizing state with
      | zero => exact absurd enough (Nat.not_lt_zero _)
      | succ polls ih =>
          obtain ⟨harmless, holds'⟩ := fine state holds
          change ∃ after, (if fatal (device.read state csrAddr).1 then failure
            else if (device.read state csrAddr).1.getLsbD bit then
              waitClear fatal csrAddr bit polls
            else return () : DmiTask Unit).exec device (device.read state csrAddr).2 = _ ∧ _
          rw [if_neg (by rw [harmless]; decide)]
          split
          · rename_i shown
            have fewer := polled state shown
            exact ih holds' (by omega)
          · exact ⟨_, rfl, holds'⟩

theorem writeWaiting_ends (good : τ → Prop) {cmdFatal sbaFatal : BitVec 32 → Bool}
    (command : ∀ state, good state →
      cmdFatal (device.read state abstractCs).1 = false ∧ good (device.read state abstractCs).2)
    (commandBusy : Polled device busy abstractCs 12)
    (bus : ∀ state, good state →
      sbaFatal (device.read state sbcs).1 = false ∧ good (device.read state sbcs).2)
    (busBusy : Polled device busy sbcs 21) {polls : Nat}
    (enough : ∀ csrAddr state, busy csrAddr state < polls) (csrAddr : BitVec 8) (data : BitVec 32)
    (waitCmd waitSba : Bool) {state : τ} (holds : good (device.write state csrAddr data)) :
    ∃ after, (writeWaiting polls cmdFatal sbaFatal csrAddr data waitCmd waitSba).exec device
        state = (some (), after) ∧
      good after := by
  obtain ⟨middle, commands, holds'⟩ := waitIf_ends command commandBusy holds (enough _ _) waitCmd
  obtain ⟨after, accesses, holds''⟩ := waitIf_ends bus busBusy holds' (enough _ _) waitSba
  refine ⟨after, ?_, holds''⟩
  have continued : (writeWaiting polls cmdFatal sbaFatal csrAddr data waitCmd waitSba).exec device
      state =
      (do
        waitIf polls waitCmd cmdFatal abstractCs 12
        waitIf polls waitSba sbaFatal sbcs 21 : DmiTask Unit).exec device
          (device.write state csrAddr data) := Task.exec_lift_bind device _ _ state
  rw [continued, Task.exec_bind_of device commands]
  exact accesses

variable (documented : Documented device view busy isMemory) {polls : Nat}
  (enough : ∀ csrAddr state, busy csrAddr state < polls)

include documented enough

theorem jtagWrite_ends (csrAddr : BitVec 8) (data : BitVec 32) (waitCmd waitSba : Bool)
    (state : τ) :
    ∃ after, (jtagWrite polls csrAddr data waitCmd waitSba).exec device state = (some (), after) ∧
      view after = view (device.write state csrAddr data) :=
  writeWaiting_ends (fun other => view other = view (device.write state csrAddr data))
    (fun other same => ⟨rfl, (documented.command other).trans same⟩) documented.commandBusy
    (fun other same => ⟨rfl, (documented.status other).1.trans same⟩) documented.busBusy enough
    csrAddr data waitCmd waitSba rfl

/-- How both tasks begin: they select 32-bit accesses and write the upper half of the address. -/
theorem selects {β : Type} (word high : BitVec 32) (rest : DmiTask β) (state : τ) :
    ∃ middle, view middle = (view state).configure word ∧
      (do
        jtagWrite polls sbcs word false true
        jtagWrite polls sbAddr1 high false false
        rest).exec device state = rest.exec device middle := by
  obtain ⟨first, configures, configured⟩ := jtagWrite_ends documented enough sbcs word false true
    state
  obtain ⟨middle, upper, kept⟩ := jtagWrite_ends documented enough sbAddr1 high false false first
  refine ⟨middle, ?_, ?_⟩
  · rw [kept, documented.upper, configured, documented.configure]
  · rw [Task.exec_bind_of device configures, Task.exec_bind_of device upper]

theorem jtagMmRead_does (addr : BitVec 64) (state : τ) (memory : isMemory (addr.setWidth 32)) :
    ∃ value after, (jtagMmRead polls addr).exec device state = (some value, after) ∧
      Does (.read addr) (view state) (view after) (some value) := by
  obtain ⟨middle, configured, runs⟩ := selects documented enough 0x140000
    ((addr <<< 32).setWidth 32)
    (do
      jtagWrite polls sbAddr0 (addr.setWidth 32) false false
      OptionT.lift (readWord sbData0)) state
  obtain ⟨fetched, fetches, asked⟩ := jtagWrite_ends documented enough sbAddr0 (addr.setWidth 32)
    false false middle
  have words : (view middle).words = true := by rw [configured]; rfl
  rw [documented.address middle (addr.setWidth 32) words memory, configured] at asked
  have modes := setAddress_modes ((view state).configure 0x140000) (addr.setWidth 32)
  obtain ⟨kept, value⟩ := documented.read fetched (by rw [asked, modes.1]; rfl)
    (by rw [asked, modes.2]; rfl)
  rw [asked] at kept value
  have does := read_does (view state) addr
  rw [Task.exec_bind_of device fetches] at runs
  refine ⟨_, _, runs.trans (Task.exec_lift device _ fetched), ?_⟩
  change Does _ _ (view (device.read fetched sbData0).2) (some (device.read fetched sbData0).1)
  rw [kept]
  refine ⟨does.memory, does.clear, fun clear aligned => ?_⟩
  rw [value (does.clear.mpr ⟨clear, aligned⟩), does.answer clear aligned]

theorem jtagMmWrite_does (addr : BitVec 64) (data : BitVec 32) (state : τ)
    (memory : isMemory (addr.setWidth 32)) :
    ∃ after, (jtagMmWrite polls addr data).exec device state = (some (), after) ∧
      Does (.write addr data) (view state) (view after) none := by
  obtain ⟨middle, configured, runs⟩ := selects documented enough 0x40000
    ((addr <<< 32).setWidth 32)
    (do
      jtagWrite polls sbAddr0 (addr.setWidth 32) false false
      jtagWrite polls sbData0 data false false) state
  obtain ⟨addressed, addresses, asked⟩ := jtagWrite_ends documented enough sbAddr0
    (addr.setWidth 32) false false middle
  have words : (view middle).words = true := by rw [configured]; rfl
  rw [documented.address middle (addr.setWidth 32) words memory, configured] at asked
  obtain ⟨after, writes, stored⟩ := jtagWrite_ends documented enough sbData0 data false false
    addressed
  rw [documented.data addressed data (by rw [asked]; rfl) (by rw [asked]; exact memory), asked]
    at stored
  refine ⟨after, runs.trans ((Task.exec_bind_of device addresses).trans writes), ?_⟩
  rw [stored]
  exact write_does (view state) addr data

theorem program_does (call : Call) (state : τ) (memory : isMemory call.target) :
    ∃ answer after, (call.program polls).exec device state = (some answer, after) ∧
      Does call (view state) (view after) answer := by
  cases call with
  | read addr =>
      obtain ⟨value, after, runs, does⟩ := jtagMmRead_does documented enough addr state memory
      exact ⟨some value, after, Task.exec_bind_of device runs, does⟩
  | write addr data =>
      obtain ⟨after, runs, does⟩ := jtagMmWrite_does documented enough addr data state memory
      exact ⟨none, after, Task.exec_bind_of device runs, does⟩

/-- Up to the first misaligned address a session is one with a memory of words, and from there on
nothing is stored. -/
theorem session_does (calls : List Call) (state : τ)
    (memory : ∀ call ∈ calls, isMemory call.target) :
    ∃ results after, (session polls calls).exec device state = (some results, after) ∧
      ((view state).Clear →
        (view after).memory =
            memoryAfter (view state).memory (calls.takeWhile fun call => call.Aligned) ∧
          results.take (calls.takeWhile fun call => call.Aligned).length =
            answers (view state).memory (calls.takeWhile fun call => call.Aligned)) ∧
      (¬(view state).Clear → (view after).memory = (view state).memory) ∧
      ((view after).Clear ↔ (view state).Clear ∧ ∀ call ∈ calls, call.Aligned) := by
  induction calls generalizing state with
  | nil => exact ⟨[], state, rfl, fun _ => ⟨rfl, rfl⟩, fun _ => rfl,
      fun clear => ⟨clear, fun _ => nofun⟩, fun clear => clear.1⟩
  | cons call calls ih =>
      obtain ⟨answer, middle, runs, does⟩ := program_does documented enough call state
        (memory call List.mem_cons_self)
      obtain ⟨results, after, continues, fine, failed, clear⟩ := ih middle fun other inside =>
        memory other (List.mem_cons_of_mem _ inside)
      refine ⟨answer :: results, after, ?_, fun noError => ?_, fun pending => ?_, ?_⟩
      · rw [session, Task.exec_bind_of device runs, Task.exec_bind_of device continues]
        rfl
      · by_cases aligned : call.Aligned
        · obtain ⟨stored, answered⟩ := fine (does.clear.mpr ⟨noError, aligned⟩)
          rw [List.takeWhile_cons_of_pos (by simpa using aligned)]
          rw [does.memory, if_pos ⟨noError, aligned⟩] at stored answered
          refine ⟨stored, ?_⟩
          rw [List.length_cons, List.take_succ_cons, answered, does.answer noError aligned]
          rfl
        · rw [List.takeWhile_cons_of_neg (by simpa using aligned)]
          refine ⟨(failed fun clear => aligned (does.clear.mp clear).2).trans ?_, rfl⟩
          rw [does.memory, if_neg fun fine => aligned fine.2]
          rfl
      · refine (failed fun clear => pending (does.clear.mp clear).1).trans ?_
        rw [does.memory, if_neg fun fine => pending fine.1]
      · rw [clear, does.clear, List.forall_mem_cons, and_assoc]

theorem memoryTestLoop_counts
    (scratchpad : ∀ addr : BitVec 32, 0x1000 ≤ addr.toNat → addr.toNat < 0x9000 → isMemory addr)
    (rounds : Nat) (rand : Nat → BitVec 32) (errorCounter : BitVec 32) {state : τ}
    (noError : (view state).Clear) :
    ∃ after, (memoryTestLoop polls rand rounds errorCounter).exec device state =
      (some errorCounter, after) := by
  induction rounds generalizing rand state with
  | zero => exact ⟨state, rfl⟩
  | succ rounds ih =>
      obtain ⟨aligned, above, below⟩ := randomAddr_spm (rand 1)
      have low : ((randomAddr (rand 1)).setWidth 64).setWidth 32 = randomAddr (rand 1) := by
        simp
      have memory := low ▸ scratchpad _ above below
      have fits := low ▸ aligned
      obtain ⟨stored, writes, wrote⟩ := jtagMmWrite_does documented enough _ (rand 0) state memory
      have clear := wrote.clear.mpr ⟨noError, fits⟩
      obtain ⟨value, loaded, reads, read⟩ := jtagMmRead_does documented enough _ stored memory
      have answered := read.answer clear fits
      rw [wrote.memory, if_pos ⟨noError, fits⟩] at answered
      have back : value = rand 0 :=
        (Option.some.inj answered).trans (load_store_same _ _ _)
      obtain ⟨after, continues⟩ := ih (fun call => rand (call + 2))
        (read.clear.mpr ⟨clear, fits⟩)
      refine ⟨after, ?_⟩
      rw [memoryTestLoop, Task.exec_bind_of device writes, Task.exec_bind_of device reads, back,
        if_neg (not_not.mpr rfl)]
      exact continues

end Session

/-- Sessions of `jtag_mm_read` and `jtag_mm_write` on a debug module without a pending error are
sessions with a memory of words up to the first misaligned address, after which nothing is stored;
the memory test counts no errors on the scratchpads. -/
theorem debug_session {τ : Type} (device : Device τ (BitVec 8) (BitVec 32)) (view : τ → SystemBus)
    (busy : BitVec 8 → τ → Nat) (isMemory : BitVec 32 → Prop)
    (documented : Documented device view busy isMemory) (polls : Nat)
    (enough : ∀ csrAddr state, busy csrAddr state < polls) (state : τ)
    (noError : (view state).Clear) :
    (∀ calls : List Call, (∀ call ∈ calls, isMemory call.target) →
      ∃ results after, (session polls calls).exec device state = (some results, after) ∧
        (view after).memory =
          memoryAfter (view state).memory (calls.takeWhile fun call => call.Aligned) ∧
        results.take (calls.takeWhile fun call => call.Aligned).length =
          answers (view state).memory (calls.takeWhile fun call => call.Aligned) ∧
        ((view after).Clear ↔ ∀ call ∈ calls, call.Aligned)) ∧
    ((∀ addr : BitVec 32, 0x1000 ≤ addr.toNat → addr.toNat < 0x9000 → isMemory addr) →
      ∀ rand, ∃ after, (jtagMemoryTest polls rand).exec device state = (some 0, after)) := by
  refine ⟨fun calls memory => ?_, fun scratchpad rand =>
    memoryTestLoop_counts documented enough scratchpad numAccs rand 0 noError⟩
  obtain ⟨results, after, runs, fine, _, clear⟩ := session_does documented enough calls state memory
  exact ⟨results, after, runs, (fine noError).1, (fine noError).2,
    clear.trans (and_iff_right noError)⟩

/-! A debug module that does what is documented and nothing else. An access to the bus is seen in
one poll. -/

structure Module where
  bus : SystemBus
  underWay : Bool

-- what it shows in SBCS
def Module.status (state : Module) : BitVec 32 :=
  state.bus.error.setWidth 32 <<< 12 ||| (BitVec.ofBool state.underWay).setWidth 32 <<< 21 |||
    (BitVec.ofBool state.bus.busyError).setWidth 32 <<< 22

def specified : Device Module (BitVec 8) (BitVec 32) where
  read state addr :=
    if addr = sbcs then (state.status, { state with underWay := false })
    else if addr = sbData0 then
      (state.bus.data,
        if state.bus.readOnData then ⟨state.bus.access .fetch, true⟩
        else { state with underWay := false })
    else (0, state)
  write state addr word :=
    if addr = sbcs then ⟨state.bus.configure word, false⟩
    else if addr = sbAddr0 then ⟨state.bus.setAddress word, state.bus.readOnAddr⟩
    else if addr = sbData0 then ⟨state.bus.setData word, true⟩
    else state

def polled (_ : BitVec 8) (state : Module) : Nat := if state.underWay then 1 else 0

theorem polled_enough (csrAddr : BitVec 8) (state : Module) : polled csrAddr state < 2 := by
  unfold polled
  split
  · decide
  · decide

theorem specified_documented : Documented specified Module.bus polled fun _ => True where
  configure _ _ := rfl
  status state := by
    refine ⟨rfl, fun clear => ?_⟩
    change sbaErr state.status = false
    rw [Module.status, clear.1, clear.2]
    cases state.underWay with
    | false => decide
    | true => decide
  busBusy state shown := by
    change (if false then 1 else 0) < polled sbcs state
    cases underWay : state.underWay with
    | false =>
        change state.status.getLsbD 21 = true at shown
        rw [Module.status, underWay] at shown
        simp at shown
    | true => simp [polled, underWay]
  command _ := rfl
  commandBusy state shown := by
    change (0#32).getLsbD 12 = true at shown
    exact absurd shown (by decide)
  upper _ _ := rfl
  address _ _ _ _ := rfl
  data _ _ _ _ := rfl
  read state off _ := by
    change (if state.bus.readOnData then (⟨state.bus.access .fetch, true⟩ : Module)
      else { state with underWay := false }).bus = state.bus ∧ _
    rw [if_neg (by simpa using off)]
    exact ⟨rfl, fun _ => rfl⟩

def blank : Module := ⟨⟨false, false, false, false, 0, false, 0, 0, fun _ => 0⟩, false⟩

def misaligned : List Call := [.write 0x1000 0xCAFE, .read 0x100001000, .write 0x1002 1]

theorem debug_session_misaligned :
    (∃ results after, (session 2 misaligned).exec specified blank = (some results, after) ∧
      results.take 2 = [none, some 0xCAFE] ∧ ¬after.bus.Clear) ∧
    ∃ after, (jtagMemoryTest 2 fun call => 0x9e3779b9 * BitVec.ofNat 32 call).exec specified blank =
      (some 0, after) := by
  obtain ⟨sessions, test⟩ := debug_session specified Module.bus polled _ specified_documented 2
    polled_enough blank ⟨rfl, rfl⟩
  refine ⟨?_, test (fun _ _ _ => trivial) _⟩
  obtain ⟨results, after, runs, _, answered, clear⟩ := sessions misaligned fun _ _ => trivial
  have first : misaligned.takeWhile (fun call => call.Aligned) =
      [.write 0x1000 0xCAFE, .read 0x100001000] := by decide
  rw [first] at answered
  refine ⟨results, after, runs, answered.trans (by decide), clear.not.mpr fun all => ?_⟩
  exact absurd (all (.write 0x1002 1) (by decide)) (by decide)

end Atalanta.DebugMemory
