import Atalanta.Testbench.DebugMemory
import Atalanta.Testbench.HaltLoad
import Atalanta.Testbench.LoadedImage

/-! `jtag_elf_run`: an image loaded through the debug module, and the hart sent to its entry. -/

namespace Atalanta.ElfRun

open BusProgram WordMemory ElfLoader DebugMemory
open JtagPreload (sbcs sbAddr0 sbData0 jtagInitSbcs wordAt readSection Target Run)
open HaltLoad (dmControlAddr dmStatusAddr dmCmd)

/-- The type of both tasks `jtag_write`: the register, the data, and what to wait for. -/
abbrev JtagWrite := BitVec 8 → BitVec 32 → (waitCmd waitSba : Bool) → DmiTask Unit

def cmdErr (acs : BitVec 32) : Bool := acs.extractLsb' 8 3 ≠ 0

section Preload

variable (write : JtagWrite)

def writeLoop (bf : Nat → BitVec 8) (secLen i : Nat) : DmiTask Unit :=
  if i ≤ secLen then do
    let checkpoint := decide (i ≠ 0 ∧ i % 512 = 0)
    write sbData0 (wordAt bf i) checkpoint checkpoint
    writeLoop bf secLen (i + 4)
  else return ()
termination_by secLen + 1 - i

def preloadSection (bf : Nat → BitVec 8) (secAddr secLen : Nat) : DmiTask Unit := do
  write sbcs jtagInitSbcs true true
  write sbAddr0 (BitVec.ofNat 32 secAddr) false false
  writeLoop write bf secLen 0

/-- The loop over the sections, which gives up where one cannot be read. -/
def preloadLoop (heap : Nat → Nat → BitVec 8) (loader : Loader) : DmiTask Unit :=
  match _found : getSection loader with
  | none => return ()
  | some ((secAddr, secLen), next) =>
    match readSection loader secAddr secLen (heap secAddr) with
    | none => failure
    | some bf => do
      preloadSection write bf secAddr secLen
      preloadLoop heap next
termination_by loader.sections.length - loader.sectionIndex
decreasing_by
  obtain ⟨_, present, same⟩ := Option.map_eq_some_iff.mp _found
  obtain ⟨inside, _⟩ := List.getElem?_eq_some_iff.mp present
  cases same
  simp only
  omega

def jtagElfPreload (heap : Nat → Nat → BitVec 8) (file : File) : DmiTask (BitVec 32) :=
  match readElf file with
  | none => failure
  | some (loader, _) => do
    preloadLoop write heap loader
    return BitVec.ofNat 32 loader.entry

def data0 : BitVec 8 := 0x04
def command : BitVec 8 := 0x17
def writeDpc : BitVec 32 := 0x2307B1
def resumeCmd : BitVec 32 := 0x40000001

-- the end of both tasks: execution is repointed, and the hart resumed
def launch (entry : BitVec 32) : DmiTask Unit := do
  write data0 entry false false
  write command writeDpc false false
  write dmControlAddr resumeCmd false false

end Preload

section Tasks

variable (polls : Nat)

def jtagElfHaltLoad (heap : Nat → Nat → BitVec 8) (file : File) : DmiTask (BitVec 32) := do
  jtagWrite polls dmControlAddr dmCmd false false
  waitClear (fun _ => false) dmControlAddr 9 polls
  jtagElfPreload (jtagWrite polls) heap file

/-- The task of `Testbench.h`, where it loads through JTAG. -/
def jtagElfRun (heap : Nat → Nat → BitVec 8) (file : File) : DmiTask Unit := do
  let entry ← jtagElfHaltLoad polls heap file
  launch (jtagWrite polls) entry

end Tasks

def BusRegister (addr : BitVec 8) (_ : BitVec 32) : Prop :=
  addr = sbcs ∨ addr = sbAddr0 ∨ addr = sbData0

/-- Where all is `well`, a task `jtag_write` to a register of the system bus is one write, as long
as that leaves no error; one that waits for nothing is never more. -/
structure Performs {τ : Type} (write : JtagWrite) (device : Device τ (BitVec 8) (BitVec 32))
    (view : τ → SystemBus) (well : τ → Prop) : Prop where
  plain : ∀ csrAddr data state,
    (write csrAddr data false false).exec device state = (some (), device.write state csrAddr data)
  bus : ∀ csrAddr data waitCmd waitSba state, BusRegister csrAddr data → well state →
    (view (device.write state csrAddr data)).Clear →
      ∃ after, (write csrAddr data waitCmd waitSba).exec device state = (some (), after) ∧
        view after = view (device.write state csrAddr data) ∧ well after
  only : ∀ csrAddr data waitCmd waitSba, BusRegister csrAddr data →
    (write csrAddr data waitCmd waitSba).OnlyWrites BusRegister

/-- The bus is set up for the words of a section, and holds what the target does. -/
structure Refines (bus : SystemBus) (target : Target) : Prop where
  words : bus.words = true
  readOnAddr : bus.readOnAddr = false
  autoIncrement : bus.autoIncrement = true
  clear : bus.Clear
  address : bus.address = target.sbAddress
  memory : bus.memory = target.memory

theorem setData_refines {bus : SystemBus} {target : Target} (refines : Refines bus target)
    (aligned : target.sbAddress.toNat % 4 = 0) (word : BitVec 32) :
    Refines (bus.setData word) (JtagPreload.jtagWrite target sbData0 word) := by
  have place : ({ bus with data := word } : SystemBus).address.toNat % 4 = 0 :=
    refines.address ▸ aligned
  have clear : ({ bus with data := word } : SystemBus).Clear := refines.clear
  have advances : (if bus.autoIncrement then bus.address + 4 else bus.address) =
      target.sbAddress + 4 := by
    rw [if_pos refines.autoIncrement, refines.address]
  have stores : store bus.memory bus.address word = store target.memory target.sbAddress word := by
    rw [refines.memory, refines.address]
  have stored : JtagPreload.jtagWrite target sbData0 word =
      ⟨target.sbAddress + 4, store target.memory target.sbAddress word⟩ := by
    rw [JtagPreload.jtagWrite, if_neg (show sbData0 ≠ sbAddr0 by decide), if_pos rfl]
  rw [SystemBus.setData, if_pos refines.clear, access_aligned clear place, stored]
  exact ⟨refines.words, refines.readOnAddr, refines.autoIncrement, refines.clear, advances, stores⟩

-- the words of a section from one index on lie in memory
def Inside (isMemory : BitVec 32 → Prop) (address : BitVec 32) (secLen i : Nat) : Prop :=
  ∀ word, i + 4 * word ≤ secLen → isMemory (address + BitVec.ofNat 32 (4 * word))

theorem Inside.next {isMemory : BitVec 32 → Prop} {address : BitVec 32} {secLen i : Nat}
    (inside : Inside isMemory address secLen i) : Inside isMemory (address + 4) secLen (i + 4) := by
  intro word within
  have later := inside (word + 1) (by omega)
  rwa [show 4 * (word + 1) = 4 + 4 * word by omega, BitVec.ofNat_add, ← BitVec.add_assoc] at later

/-- A section that the system bus can store word by word. -/
def Placed (isMemory : BitVec 32 → Prop) (secAddr secLen : Nat) : Prop :=
  secAddr % 4 = 0 ∧ Inside isMemory (BitVec.ofNat 32 secAddr) secLen 0

-- the sections of a file lie where the system bus reaches memory
def Loadable (isMemory : BitVec 32 → Prop) (file : File) : Prop :=
  ∀ loader ok, readElf file = some (loader, ok) →
    ∀ secAddr secLen, (secAddr, secLen) ∈ loader.sections → Placed isMemory secAddr secLen

theorem waitClear_only (fatal : BitVec 32 → Bool) (csrAddr : BitVec 8) (bit polls : Nat) :
    (waitClear fatal csrAddr bit polls).OnlyWrites BusRegister := by
  induction polls with
  | zero => exact trivial
  | succ polls ih =>
      refine Task.OnlyWrites.bind (.lift fun _ => trivial) fun status => ?_
      split
      · exact trivial
      · split
        · exact ih
        · exact trivial

theorem writeWaiting_only (polls : Nat) (cmdFatal sbaFatal : BitVec 32 → Bool) {csrAddr : BitVec 8}
    {data : BitVec 32} (waitCmd waitSba : Bool) (register : BusRegister csrAddr data) :
    (writeWaiting polls cmdFatal sbaFatal csrAddr data waitCmd waitSba).OnlyWrites BusRegister := by
  have waits : ∀ waits fatal csrAddr bit,
      (waitIf polls waits fatal csrAddr bit).OnlyWrites BusRegister := by
    intro waits fatal csrAddr bit
    cases waits with
    | false => exact trivial
    | true => exact waitClear_only fatal csrAddr bit polls
  exact Task.OnlyWrites.bind (.lift (And.intro register trivial)) fun _ =>
    (waits waitCmd _ _ _).bind fun _ => waits waitSba _ _ _

section Preload

variable {τ : Type} {device : Device τ (BitVec 8) (BitVec 32)} {view : τ → SystemBus}
  {busy : BitVec 8 → τ → Nat} {isMemory : BitVec 32 → Prop} {write : JtagWrite} {well : τ → Prop}
  (documented : Documented device view busy isMemory) (performs : Performs write device view well)

include documented performs

theorem writeLoop_refines (bf : Nat → BitVec 8) (secLen i : Nat) (run : Run)
    {state : τ} (holds : well state) (refines : Refines (view state) run.target)
    (aligned : run.target.sbAddress.toNat % 4 = 0)
    (inside : Inside isMemory run.target.sbAddress secLen i) :
    ∃ after, (writeLoop write bf secLen i).exec device state = (some (), after) ∧ well after ∧
      Refines (view after) (JtagPreload.writeLoop bf secLen i run).target := by
  fun_induction JtagPreload.writeLoop bf secLen i run generalizing state with
  | case1 i run within ih =>
      have first : isMemory (view state).address := by
        have here := inside 0 within
        rwa [Nat.mul_zero, BitVec.add_zero, ← refines.address] at here
      have stored := documented.data state (wordAt bf i) refines.words first
      have next := setData_refines refines aligned (wordAt bf i)
      rw [← stored] at next
      obtain ⟨middle, writes, same, holds'⟩ := performs.bus sbData0 (wordAt bf i)
        (decide (i ≠ 0 ∧ i % 512 = 0)) (decide (i ≠ 0 ∧ i % 512 = 0)) state (.inr (.inr rfl)) holds
        next.clear
      rw [← same] at next
      have aligned' : (run.target.sbAddress + 4).toNat % 4 = 0 := by
        rw [BitVec.toNat_add]
        change (run.target.sbAddress.toNat + 4) % 2 ^ 32 % 4 = 0
        omega
      rw [writeLoop, if_pos within, Task.exec_bind_of device writes]
      exact ih holds' next aligned' inside.next
  | case2 i run ended =>
      rw [writeLoop, if_neg ended]
      exact ⟨state, rfl, holds, refines⟩

theorem preloadSection_refines (bf : Nat → BitVec 8) (secAddr secLen : Nat) (run : Run) {state : τ}
    (holds : well state) (noError : (view state).Clear)
    (memory : (view state).memory = run.target.memory) (placed : Placed isMemory secAddr secLen) :
    ∃ after, (preloadSection write bf secAddr secLen).exec device state = (some (), after) ∧
      well after ∧
      Refines (view after) (JtagPreload.preloadSection bf secAddr secLen run).target := by
  have configured := documented.configure state jtagInitSbcs
  have clean : ((view state).configure jtagInitSbcs).Clear :=
    (configure_clear _ (by decide) (by decide)).mpr noError
  obtain ⟨first, configures, same, holds'⟩ := performs.bus sbcs jtagInitSbcs true true state
    (.inl rfl) holds (by rw [configured]; exact clean)
  rw [configured] at same
  have words : (view first).words = true := by
    rw [same]
    rfl
  have inMemory : isMemory (BitVec.ofNat 32 secAddr) := by
    have here := placed.2 0 (Nat.zero_le _)
    rwa [Nat.mul_zero, BitVec.add_zero] at here
  have addressed := documented.address first (BitVec.ofNat 32 secAddr) words inMemory
  rw [same] at addressed
  obtain ⟨second, addresses, same', holds''⟩ := performs.bus sbAddr0 (BitVec.ofNat 32 secAddr)
    false false first (.inr (.inl rfl)) holds' (by rw [addressed]; exact clean)
  rw [preloadSection, Task.exec_bind_of device configures, Task.exec_bind_of device addresses]
  refine writeLoop_refines documented performs bf secLen 0
    { run with target := ⟨BitVec.ofNat 32 secAddr, run.target.memory⟩ } holds'' ?_ ?_ placed.2
  · rw [same', addressed]
    exact ⟨rfl, rfl, rfl, clean, rfl, memory⟩
  · have aligned := placed.1
    change (BitVec.ofNat 32 secAddr).toNat % 4 = 0
    rw [BitVec.toNat_ofNat]
    omega

theorem preloadLoop_refines (heap : Nat → Nat → BitVec 8) (loader : Loader) (run ends : Run)
    {state : τ} (holds : well state) (noError : (view state).Clear)
    (memory : (view state).memory = run.target.memory)
    (placed : ∀ secAddr secLen, (secAddr, secLen) ∈ loader.sections →
      Placed isMemory secAddr secLen)
    (loaded : JtagPreload.preloadLoop heap loader run = some ends) :
    ∃ after, (preloadLoop write heap loader).exec device state = (some (), after) ∧ well after ∧
      (view after).memory = ends.target.memory := by
  fun_induction JtagPreload.preloadLoop heap loader run generalizing state with
  | case1 loader run found =>
      cases loaded
      refine ⟨state, ?_, holds, memory⟩
      rw [preloadLoop]
      split
      · rfl
      · rename_i other
        rw [found] at other
        cases other
  | case2 loader run secAddr secLen next found ih =>
      obtain ⟨bf, reads, rest⟩ := Option.bind_eq_some_iff.mp loaded
      obtain ⟨_, present, same⟩ := Option.map_eq_some_iff.mp found
      cases same
      have member := List.mem_of_getElem? present
      obtain ⟨middle, stores, holds', refines⟩ := preloadSection_refines documented performs bf
        secAddr secLen run holds noError memory (placed secAddr secLen member)
      obtain ⟨after, runs, holds'', stored⟩ := ih bf holds' refines.clear refines.memory placed rest
      refine ⟨after, ?_, holds'', stored⟩
      rw [preloadLoop]
      split
      · rename_i other
        rw [found] at other
        cases other
      · rename_i other
        rw [found] at other
        cases other
        rw [reads]
        exact (Task.exec_bind_of device stores).trans runs

theorem jtagElfPreload_refines (heap : Nat → Nat → BitVec 8) {file : File} {target : Target}
    {run : Run} {entry : BitVec 32} {state : τ} (holds : well state)
    (noError : (view state).Clear) (memory : (view state).memory = target.memory)
    (loadable : Loadable isMemory file)
    (loaded : JtagPreload.jtagElfPreload heap file target = some (run, entry)) :
    ∃ after, (jtagElfPreload write heap file).exec device state = (some entry, after) ∧
      well after ∧ (view after).memory = run.target.memory := by
  obtain ⟨⟨loader, ok⟩, reads, rest⟩ := Option.bind_eq_some_iff.mp loaded
  obtain ⟨ends, sections, same⟩ := Option.map_eq_some_iff.mp rest
  cases same
  obtain ⟨after, runs, holds', stored⟩ := preloadLoop_refines documented performs heap loader
    ⟨target, []⟩ run holds noError memory (loadable loader ok reads) sections
  refine ⟨after, ?_, holds', stored⟩
  rw [jtagElfPreload, reads]
  exact Task.exec_bind_of device runs

omit documented

theorem writeLoop_only (bf : Nat → BitVec 8) (secLen i : Nat) :
    (writeLoop write bf secLen i).OnlyWrites BusRegister := by
  fun_induction writeLoop write bf secLen i with
  | case1 i within checkpoint ih =>
      exact (performs.only sbData0 _ _ _ (.inr (.inr rfl))).bind fun _ => ih
  | case2 i ended => exact trivial

theorem preloadLoop_only (heap : Nat → Nat → BitVec 8) (loader : Loader) :
    (preloadLoop write heap loader).OnlyWrites BusRegister := by
  fun_induction preloadLoop write heap loader with
  | case1 loader found => exact trivial
  | case2 loader secAddr secLen next found unread => exact trivial
  | case3 loader secAddr secLen next found bf reads ih =>
      have section_ : (preloadSection write bf secAddr secLen).OnlyWrites BusRegister :=
        (performs.only sbcs _ _ _ (.inl rfl)).bind fun _ =>
          (performs.only sbAddr0 _ _ _ (.inr (.inl rfl))).bind fun _ =>
            writeLoop_only performs bf secLen 0
      exact section_.bind fun _ => ih

theorem jtagElfPreload_only (heap : Nat → Nat → BitVec 8) (file : File) :
    (jtagElfPreload write heap file).OnlyWrites BusRegister := by
  unfold jtagElfPreload
  split
  · exact trivial
  · exact (preloadLoop_only performs heap _).bind fun _ => trivial

end Preload

/-! Run control -/

inductive Hart
  | running (resumedAt : Option (BitVec 32))
  | halted (dpc : BitVec 32)
deriving DecidableEq, Repr

structure RunControl where
  haltReq : Bool
  hart : Hart
  cmdErr : BitVec 3
  data0 : BitVec 32
deriving DecidableEq, Repr

namespace RunControl

def isHalted (control : RunControl) : Bool :=
  match control.hart with
  | .running _ => false
  | .halted _ => true

/-- A write to DMCONTROL: a resume request is heeded where there is no halt request. -/
def request (control : RunControl) (word : BitVec 32) : RunControl :=
  { control with
    haltReq := word.getLsbD 31
    hart :=
      match control.hart with
      | .halted dpc =>
        if word.getLsbD 30 && !word.getLsbD 31 then .running (some dpc) else .halted dpc
      | .running resumedAt => .running resumedAt }

def haltResumeError : BitVec 3 := 4

/-- The abstract command that writes the DPC, which fails on a hart that runs; no command is begun
while an error is pending. -/
def repoint (control : RunControl) : RunControl :=
  if control.cmdErr ≠ 0 then control
  else
    match control.hart with
    | .halted _ => { control with hart := .halted control.data0 }
    | .running _ => { control with cmdErr := haltResumeError }

/-- With any access a requested halt may take effect. -/
structure Settles (before after : RunControl) : Prop where
  haltReq : after.haltReq = before.haltReq
  cmdErr : after.cmdErr = before.cmdErr
  data0 : after.data0 = before.data0
  hart : after.hart = before.hart ∨
    before.haltReq = true ∧ before.isHalted = false ∧ after.isHalted = true

theorem Settles.refl (control : RunControl) : Settles control control := ⟨rfl, rfl, rfl, .inl rfl⟩

theorem Settles.halted {before after : RunControl} (settles : Settles before after)
    (halted : before.isHalted = true) : after.hart = before.hart := by
  rcases settles.hart with same | ⟨_, running, _⟩
  · exact same
  · rw [halted] at running
    cases running

theorem Settles.trans {early middle late : RunControl} (first : Settles early middle)
    (second : Settles middle late) : Settles early late := by
  refine ⟨second.haltReq.trans first.haltReq, second.cmdErr.trans first.cmdErr,
    second.data0.trans first.data0, ?_⟩
  rcases first.hart with same | ⟨requested, running, halted⟩
  · rcases second.hart with same' | ⟨requested, running, halted⟩
    · exact .inl (same'.trans same)
    · refine .inr ⟨first.haltReq ▸ requested, ?_, halted⟩
      rw [isHalted, ← same]
      exact running
  · refine .inr ⟨requested, running, ?_⟩
    rw [isHalted, second.halted halted]
    exact halted

theorem repoint_hart {control : RunControl} (noError : control.cmdErr = 0)
    (halted : control.isHalted = true) : control.repoint.hart = .halted control.data0 := by
  cases hart : control.hart with
  | running resumedAt => simp [isHalted, hart] at halted
  | halted dpc => simp [repoint, noError, hart]

theorem request_resume {control : RunControl} {entry : BitVec 32}
    (halted : control.hart = .halted entry) {after : RunControl}
    (settles : (control.request resumeCmd).Settles after) : after.hart = .running (some entry) := by
  have resumed : (control.request resumeCmd).hart = .running (some entry) := by
    simp [request, halted, resumeCmd]
  rcases settles.hart with same | ⟨requested, _⟩
  · exact same.trans resumed
  · change resumeCmd.getLsbD 31 = true at requested
    exact absurd requested (by decide)

theorem request_running {control after : RunControl} (running : control.isHalted = false)
    (settles : (control.request resumeCmd).Settles after) : after.hart = control.hart := by
  rcases settles.hart with same | ⟨requested, _⟩
  · rw [same]
    cases hart : control.hart with
    | running resumedAt => simp [request, hart]
    | halted dpc => simp [isHalted, hart] at running
  · change resumeCmd.getLsbD 31 = true at requested
    exact absurd requested (by decide)

theorem repoint_running {control after : RunControl} (running : after.isHalted = false)
    (settles : control.repoint.Settles after) : after.hart = control.hart := by
  rcases settles.hart with same | ⟨_, _, halted⟩
  · refine same.trans ?_
    by_cases noError : control.cmdErr = 0
    · cases hart : control.hart with
      | running resumedAt => simp [repoint, noError, hart]
      | halted dpc => simp [isHalted, same, repoint, noError, hart] at running
    · rw [repoint, if_pos noError]
  · rw [running] at halted
    cases halted

end RunControl

section RunControl

variable {τ : Type} (device : Device τ (BitVec 8) (BitVec 32)) (view : τ → SystemBus)
  (control : τ → RunControl)

/-- What the debug specification says of run control, where a command is over before the next access
to the registers of run control. A hart that has not been resumed stores nothing, and leaves DATA0
alone. -/
structure Controls : Prop where
  read : ∀ state addr, (control state).Settles (control (device.read state addr).2)
  bus : ∀ state addr word, BusRegister addr word →
    (control state).Settles (control (device.write state addr word))
  request : ∀ state word, word.getLsbD 0 = true →
    ((control state).request word).Settles (control (device.write state dmControlAddr word)) ∧
      view (device.write state dmControlAddr word) = view state
  data : ∀ state word,
    RunControl.Settles { control state with data0 := word }
        (control (device.write state data0 word)) ∧
      view (device.write state data0 word) = view state
  repoint : ∀ state,
    (control state).repoint.Settles (control (device.write state command writeDpc)) ∧
      view (device.write state command writeDpc) = view state
  errors : ∀ state, (control state).cmdErr = 0 → cmdErr (device.read state abstractCs).1 = false
  requested : ∀ state, view (device.read state dmControlAddr).2 = view state ∧
    (device.read state dmControlAddr).1.getLsbD 9 = false
  status : ∀ state, view (device.read state dmStatusAddr).2 = view state ∧
    ((device.read state dmStatusAddr).1.getLsbD 9 = true → (control state).isHalted = true)

end RunControl

section RunControl

variable {τ : Type} {device : Device τ (BitVec 8) (BitVec 32)} {view : τ → SystemBus}
  {control : τ → RunControl} (controls : Controls device view control)

include controls

theorem read_keeps {bus : SystemBus} {error : BitVec 3} {state : τ} {addr : BitVec 8}
    (same : view (device.read state addr).2 = view state)
    (holds : view state = bus ∧ (control state).cmdErr = error) :
    view (device.read state addr).2 = bus ∧
      (control (device.read state addr).2).cmdErr = error :=
  ⟨same.trans holds.1, (controls.read state addr).cmdErr.trans holds.2⟩

theorem writeWaiting_performs {busy : BitVec 8 → τ → Nat} {isMemory : BitVec 32 → Prop}
    (documented : Documented device view busy isMemory) {polls : Nat}
    (enough : ∀ csrAddr state, busy csrAddr state < polls) {cmdFatal sbaFatal : BitVec 32 → Bool}
    (command : ∀ acs, cmdErr acs = false → cmdFatal acs = false)
    (bus : ∀ status, sbaErr status = false → sbaFatal status = false) :
    Performs (writeWaiting polls cmdFatal sbaFatal) device view
      fun state => (control state).cmdErr = 0 where
  plain _ _ _ := rfl
  bus csrAddr data waitCmd waitSba state register noError clear := by
    refine writeWaiting_ends
      (fun other => view other = view (device.write state csrAddr data) ∧
        (control other).cmdErr = 0)
      (fun other holds => ⟨?_, read_keeps controls (documented.command other) holds⟩)
      documented.commandBusy
      (fun other holds => ⟨?_, read_keeps controls (documented.status other).1 holds⟩)
      documented.busBusy enough csrAddr data waitCmd waitSba
      ⟨rfl, (controls.bus state csrAddr data register).cmdErr.trans noError⟩
    · exact command _ (controls.errors other holds.2)
    · exact bus _ ((documented.status other).2 (holds.1.symm ▸ clear))
  only _ _ waitCmd waitSba register := writeWaiting_only polls cmdFatal sbaFatal waitCmd waitSba
    register

theorem launch_runs {write : JtagWrite} {well : τ → Prop}
    (performs : Performs write device view well) (entry : BitVec 32) {state : τ}
    (noError : (control state).cmdErr = 0) :
    ∃ after, (launch write entry).exec device state = (some (), after) ∧
      view after = view state ∧
      ((control (device.write state data0 entry)).isHalted = true →
        (control after).hart = .running (some entry)) ∧
      ((control (device.write (device.write state data0 entry) command writeDpc)).isHalted =
          false →
        (control after).hart = (control (device.write state data0 entry)).hart) := by
  have first := controls.data state entry
  have second := controls.repoint (device.write state data0 entry)
  have third := controls.request
    (device.write (device.write state data0 entry) command writeDpc) resumeCmd (by decide)
  refine ⟨_, ?_, third.2.trans (second.2.trans first.2), fun halted => ?_, fun running => ?_⟩
  · rw [launch, Task.exec_bind_of device (performs.plain data0 entry state),
      Task.exec_bind_of device (performs.plain command writeDpc _)]
    exact performs.plain dmControlAddr resumeCmd _
  · have stored : (control (device.write state data0 entry)).data0 = entry := first.1.data0
    have repointed := RunControl.repoint_hart (first.1.cmdErr.trans noError) halted
    rw [stored] at repointed
    have stays := second.1.halted (by rw [RunControl.isHalted, repointed])
    exact RunControl.request_resume (stays.trans repointed) third.1
  · exact (RunControl.request_running running third.1).trans
      (RunControl.repoint_running running second.1)

theorem waitRequested_ends {busy : BitVec 8 → τ → Nat} {polls : Nat}
    (enough : ∀ csrAddr state, busy csrAddr state < polls) (state : τ) :
    ∃ after, (waitClear (fun _ => false) dmControlAddr 9 polls).exec device state =
        (some (), after) ∧
      view after = view state ∧ (control after).cmdErr = (control state).cmdErr := by
  have polled : Polled device busy dmControlAddr 9 := fun other shown =>
    absurd ((controls.requested other).2.symm.trans shown) (by decide)
  exact waitIf_ends
    (fun other holds => ⟨rfl, read_keeps controls (controls.requested other).1 holds⟩) polled
    ⟨rfl, rfl⟩ (enough _ state) true

end RunControl

/-- The image is in memory, and the hart runs from its entry. -/
structure Launched (view : SystemBus) (control : RunControl) (memory : Memory)
    (entry : BitVec 32) : Prop where
  memory : view.memory = memory
  hart : control.hart = .running (some entry)

section Theorems

variable {τ : Type} (device : Device τ (BitVec 8) (BitVec 32)) (view : τ → SystemBus)
  (control : τ → RunControl) (busy : BitVec 8 → τ → Nat) (isMemory : BitVec 32 → Prop)
  (documented : Documented device view busy isMemory) (controls : Controls device view control)
  (polls : Nat) (enough : ∀ csrAddr state, busy csrAddr state < polls)
  (file : File) (run : Run) (entry : BitVec 32) (state : τ)
  (noError : (view state).Clear ∧ (control state).cmdErr = 0) (loadable : Loadable isMemory file)

include documented controls enough noError loadable

/-- The task of `Testbench.h` ends with the image in memory, but it has not waited for the hart:
one that was halted when the entry was handed over runs from it, and one that has not halted by
the command that writes the DPC runs on as before. -/
theorem elf_run_repoints (heap : Nat → Nat → BitVec 8)
    (loaded : JtagPreload.jtagElfPreload heap file
      ⟨(view state).address, (view state).memory⟩ = some (run, entry)) :
    ∃ middle after, (jtagElfHaltLoad polls heap file).exec device state = (some entry, middle) ∧
      (jtagElfRun polls heap file).exec device state = (some (), after) ∧
      (view after).memory = run.target.memory ∧
      ((control (device.write middle data0 entry)).isHalted = true →
        Launched (view after) (control after) run.target.memory entry) ∧
      ((control (device.write (device.write middle data0 entry) command writeDpc)).isHalted =
          false →
        (control after).hart = (control (device.write middle data0 entry)).hart) := by
  have performs : Performs (jtagWrite polls) device view _ :=
    writeWaiting_performs controls documented enough (fun _ _ => rfl) fun _ _ => rfl
  have asked := controls.request state dmCmd (by decide)
  obtain ⟨waited, waits, kept, holds⟩ := waitRequested_ends controls enough
    (device.write state dmControlAddr dmCmd)
  have untouched := kept.trans asked.2
  obtain ⟨middle, loads, holds', stored⟩ := jtagElfPreload_refines documented performs heap
    (holds.trans (asked.1.cmdErr.trans noError.2)) (untouched.symm ▸ noError.1)
    (by rw [untouched]) loadable loaded
  obtain ⟨after, launches, same, runs, lost⟩ := launch_runs controls performs entry holds'
  have halting : (jtagElfHaltLoad polls heap file).exec device state = (some entry, middle) := by
    rw [jtagElfHaltLoad, Task.exec_bind_of device (performs.plain dmControlAddr dmCmd state),
      Task.exec_bind_of device waits]
    exact loads
  refine ⟨middle, after, halting, ?_, same ▸ stored, fun halted => ⟨same ▸ stored, runs halted⟩,
    lost⟩
  rw [jtagElfRun, Task.exec_bind_of device halting]
  exact launches

end Theorems

-- a debug module whose hart halts at a read of DMSTATUS, if at all
def hartBehind (halts : Bool) : Device (Module × RunControl) (BitVec 8) (BitVec 32) where
  read state addr :=
    if addr = dmStatusAddr then
      (if state.2.isHalted then 0x200 else 0,
        (state.1, if halts && state.2.haltReq && !state.2.isHalted then
          { state.2 with hart := .halted 0 } else state.2))
    else if addr = abstractCs then (state.2.cmdErr.setWidth 32 <<< 8, state)
    else ((specified.read state.1 addr).1, ((specified.read state.1 addr).2, state.2))
  write state addr word :=
    if addr = dmControlAddr then (state.1, state.2.request word)
    else if addr = data0 then (state.1, { state.2 with data0 := word })
    else if addr = command then (state.1, if word = writeDpc then state.2.repoint else state.2)
    else (specified.write state.1 addr word, state.2)

theorem hartBehind_documented (halts : Bool) :
    Documented (hartBehind halts) (fun state => state.1.bus)
      (fun csrAddr state => polled csrAddr state.1) fun _ => True where
  configure state := specified_documented.configure state.1
  status state := specified_documented.status state.1
  busBusy state := specified_documented.busBusy state.1
  command _ := rfl
  commandBusy state shown := by
    change (state.2.cmdErr.setWidth 32 <<< 8).getLsbD 12 = true at shown
    simp at shown
  upper state := specified_documented.upper state.1
  address state := specified_documented.address state.1
  data state := specified_documented.data state.1
  read state := specified_documented.read state.1

theorem hartBehind_bus (halts : Bool) (state : Module × RunControl) (addr : BitVec 8)
    (word : BitVec 32) (register : BusRegister addr word) :
    ((hartBehind halts).write state addr word).2 = state.2 := by
  rcases register with rfl | rfl | rfl
  · rfl
  · rfl
  · rfl

theorem hartBehind_reads (halts : Bool) (state : Module × RunControl) {addr : BitVec 8}
    (other : addr ≠ dmStatusAddr) : ((hartBehind halts).read state addr).2.2 = state.2 := by
  change (ite (addr = dmStatusAddr) _ _ : _ × _ × RunControl).2.2 = state.2
  rw [if_neg other]
  split
  · rfl
  · rfl

theorem hartBehind_controls (halts : Bool) :
    Controls (hartBehind halts) (fun state => state.1.bus) Prod.snd where
  read state addr := by
    by_cases status : addr = dmStatusAddr
    · subst status
      change RunControl.Settles state.2 (if halts && state.2.haltReq && !state.2.isHalted then
        { state.2 with hart := .halted 0 } else state.2)
      split
      · rename_i settled
        rw [Bool.and_eq_true, Bool.and_eq_true, Bool.not_eq_true'] at settled
        exact ⟨rfl, rfl, rfl, .inr ⟨settled.1.2, settled.2, rfl⟩⟩
      · exact .refl _
    · rw [hartBehind_reads halts state status]
      exact .refl _
  bus state addr word register := by
    rw [hartBehind_bus halts state addr word register]
    exact .refl _
  request state word _ := ⟨.refl _, rfl⟩
  data state word := ⟨.refl _, rfl⟩
  repoint state := ⟨.refl _, rfl⟩
  errors state noError := by
    change cmdErr (state.2.cmdErr.setWidth 32 <<< 8) = false
    rw [noError]
    decide
  requested state := by
    refine ⟨rfl, ?_⟩
    change (0#32).getLsbD 9 = false
    decide
  status state := by
    refine ⟨rfl, fun all => ?_⟩
    change (if state.2.isHalted then 0x200#32 else 0#32).getLsbD 9 = true at all
    split at all
    · assumption
    · exact absurd all (by decide)

theorem hartBehind_stays {β : Type} {task : DmiTask β} (only : task.OnlyWrites BusRegister)
    (state : Module × RunControl) : (task.exec (hartBehind false) state).2.2 = state.2 := by
  refine exec_related (hartBehind false) (fun early late => late.2 = early.2) (fun _ => rfl)
    (fun first second => second.trans first) (fun state addr => ?_)
    (hartBehind_bus false) only state
  by_cases status : addr = dmStatusAddr
  · subst status
    rfl
  · exact hartBehind_reads false state status

def idle : Module × RunControl := (blank, ⟨false, .running none, 0, 0⟩)

open JtagPreload (words WellFormed preload_eq)

-- long enough for the preload to wait for the system bus on the way
def padded : File where
  size := 140
  buf offset :=
    let ident := words [0x464c457f, 0x00010101, 0, 0]
    let ehdr := words [0x00f30002, 1, 0x1000, 64, 100, 0, 0x00200034, 0x00280001, 1, 0, 0, 0]
    let only := words [1, 96, 0x1000, 0x1000, 4, 516, 7, 4]
    ((ident ++ ehdr ++ only ++ words [0x11111111])[offset]?).getD 0

theorem padded_accepted : ∃ loader, readElf padded = some (loader, true) ∧
    loader.sections = [(0x1000, 516)] ∧ loader.entry = 0x1000 := by
  have checks : (readElf padded).map (fun read => (read.2, read.1.sections, read.1.entry)) =
      some (true, [(0x1000, 516)], 0x1000) := by decide
  obtain ⟨⟨loader, ok⟩, result, same⟩ := Option.map_eq_some_iff.mp checks
  obtain ⟨rfl, sections, entry⟩ := Prod.ext_iff.mp same |>.imp_right Prod.ext_iff.mp
  exact ⟨loader, result, sections, entry⟩

theorem padded_loadable : Loadable (fun _ => True) padded := by
  intro loader ok accepted secAddr secLen member
  obtain ⟨_, accepted', sections, _⟩ := padded_accepted
  cases accepted.symm.trans accepted'
  rw [sections] at member
  cases List.mem_singleton.mp member
  exact ⟨by decide, fun _ _ => trivial⟩

theorem padded_loaded (heap : Nat → Nat → BitVec 8) (target : Target) :
    ∃ run, JtagPreload.jtagElfPreload heap padded target = some (run, 0x1000) := by
  obtain ⟨loader, accepted, _, entry⟩ := padded_accepted
  have segments : segmentsOf padded = [⟨1, 96, 0x1000, 4, 516⟩] := by decide
  have wellFormed : WellFormed (segmentsOf padded) := by
    rw [segments]
    exact ⟨by decide, by decide, List.pairwise_singleton _ _⟩
  have loaded := preload_eq wellFormed accepted heap target
  rw [entry] at loaded
  exact ⟨_, loaded⟩

-- a hart that does not halt runs on
theorem elf_run_repoints_padded :
    ∃ after, (jtagElfRun 2 (fun _ _ => 0) padded).exec (hartBehind false) idle =
        (some (), after) ∧
      after.2.hart = .running none := by
  obtain ⟨run, loaded⟩ := padded_loaded (fun _ _ => 0) ⟨0, fun _ => 0⟩
  have documented := hartBehind_documented false
  have controls := hartBehind_controls false
  obtain ⟨middle, after, loads, ends, _, _, lost⟩ := elf_run_repoints (hartBehind false) _ Prod.snd
    _ _ documented controls 2 (fun _ _ => polled_enough _ _) padded run 0x1000 idle
    ⟨⟨rfl, rfl⟩, rfl⟩ padded_loadable (fun _ _ => 0) loaded
  have performs : Performs (jtagWrite 2) (hartBehind false) (fun state => state.1.bus) _ :=
    writeWaiting_performs controls documented (fun _ _ => polled_enough _ _) (fun _ _ => rfl)
      fun _ _ => rfl
  have kept := hartBehind_stays ((waitClear_only (fun _ => false) dmControlAddr 9 2).bind
    fun _ => jtagElfPreload_only performs (fun _ _ => 0) padded)
    ((hartBehind false).write idle dmControlAddr dmCmd)
  have same : middle.2 = ((hartBehind false).write idle dmControlAddr dmCmd).2 :=
    (congrArg (fun ended => ended.2.2) loads).symm.trans kept
  refine ⟨after, ends, (lost ?_).trans ?_⟩
  · change (RunControl.repoint { middle.2 with data0 := 0x1000 }).isHalted = false
    rw [same]
    rfl
  · change middle.2.hart = _
    rw [same]
    rfl

end Atalanta.ElfRun
