import Mathlib.Data.BitVec

/-! `jtag_elf_halt_load` of `Testbench.h` and of `vip_rt_top.sv`: both ask for the hart to halt
and poll a register of the debug module before they load or redirect it. -/

namespace Atalanta.HaltLoad

-- what a read of the debug module returns: an address, the data and a status
abbrev DmiResponse := BitVec 41

def DmiResponse.op (response : DmiResponse) : BitVec 2 := response.extractLsb' 0 2
def DmiResponse.data (response : DmiResponse) : BitVec 32 := response.extractLsb' 2 32

/-- Repeated reads of one register, in `ρ` what is kept from a trial to the next: a response
starts another trial or ends the reading. -/
structure Reader (ρ : Type) where
  start : ρ
  retry : ρ → DmiResponse → Option ρ

structure HaltLoop (ρ : Type) where
  addr : BitVec 8
  reader : Reader ρ
  again : BitVec 32 → Bool

inductive Phase (ρ : Type)
  | waiting (trial : ρ)
  | past
deriving DecidableEq, Repr

namespace HaltLoop

variable {ρ : Type} (loop : HaltLoop ρ)

def next : Phase ρ → DmiResponse → Phase ρ
  | .waiting trial, response =>
    match loop.reader.retry trial response with
    | some trial => .waiting trial
    | none => if loop.again response.data then .waiting loop.reader.start else .past
  | .past, _ => .past

def run (responses : Nat → DmiResponse) : Nat → Phase ρ
  | 0 => .waiting loop.reader.start
  | count + 1 => loop.next (run responses count) (responses count)

def readAt (responses : Nat → DmiResponse) (index : Nat) : Option (BitVec 8) :=
  match loop.run responses index with
  | .waiting _ => some loop.addr
  | .past => none

end HaltLoop

def dmControlAddr : BitVec 8 := 0x10
def dmStatusAddr : BitVec 8 := 0x11

def allhalted (status : BitVec 32) : Bool := status.getLsbD 9

def dtmBusy : BitVec 2 := 0b11

/-! `Testbench.h` -/

-- the counts of one reading: before each later trial the DMI is reset, and each trial waits
structure Backoff where
  trialIdx : BitVec 32
  waitCycles : BitVec 32
deriving DecidableEq, Repr

def jtagReadDmiExpBackoff : Reader Backoff where
  start := ⟨0, 8⟩
  retry trial response :=
    if response.op = dtmBusy then some ⟨trial.trialIdx + 1, trial.waitCycles * 2⟩ else none

def jtagElfHaltLoad : HaltLoop Backoff where
  addr := dmControlAddr
  reader := jtagReadDmiExpBackoff
  again status := status &&& 0x200 ≠ 0

def dmCmd : BitVec 32 := 0x80000001

/-! `vip_rt_top.sv`, with the `read_dmi_exp_backoff` of its `jtag_dbg` -/

def vipJtagElfHaltLoad {ρ : Type} (readDmiExpBackoff : Reader ρ) : HaltLoop ρ where
  addr := dmStatusAddr
  reader := readDmiExpBackoff
  again status := !allhalted status

section Loop

variable {ρ : Type} (loop : HaltLoop ρ) (responses : Nat → DmiResponse)

theorem readAt_addr {index : Nat} {addr : BitVec 8}
    (reads : loop.readAt responses index = some addr) : addr = loop.addr := by
  unfold HaltLoop.readAt at reads
  split at reads
  · exact (Option.some.inj reads).symm
  · cases reads

theorem next_past_iff (phase : Phase ρ) (response : DmiResponse) :
    loop.next phase response = .past ↔ phase = .past ∨ ∃ trial, phase = .waiting trial ∧
      loop.reader.retry trial response = none ∧ loop.again response.data = false := by
  cases phase with
  | past => simp [HaltLoop.next]
  | waiting trial =>
      cases retried : loop.reader.retry trial response with
      | some trial => simp [HaltLoop.next, retried]
      | none => simp [HaltLoop.next, retried]

/-- A loop is past exactly when a response to one of its reads has ended both the reading and the
waiting. -/
theorem past_iff (count : Nat) :
    loop.run responses count = .past ↔
      ∃ index < count, ∃ trial, loop.run responses index = .waiting trial ∧
        loop.reader.retry trial (responses index) = none ∧
        loop.again (responses index).data = false := by
  induction count with
  | zero => simp [HaltLoop.run]
  | succ count ih =>
      rw [HaltLoop.run, next_past_iff, ih]
      constructor
      · rintro (⟨index, below, ended⟩ | ended)
        · exact ⟨index, by omega, ended⟩
        · exact ⟨count, by omega, ended⟩
      · rintro ⟨index, below, ended⟩
        rcases Nat.lt_succ_iff_lt_or_eq.mp below with earlier | rfl
        · exact .inl ⟨index, earlier, ended⟩
        · exact .inr ended

theorem past_after_read {count : Nat} (past : loop.run responses count = .past) :
    ∃ index < count, loop.readAt responses index = some loop.addr ∧
      loop.again (responses index).data = false := by
  obtain ⟨index, below, trial, waiting, _, ended⟩ := (past_iff loop responses count).mp past
  refine ⟨index, below, ?_, ended⟩
  rw [HaltLoop.readAt, waiting]

end Loop

/-- The loop gets past only after a read of DMSTATUS has returned allhalted. -/
def WaitsForHalt {ρ : Type} (loop : HaltLoop ρ) (responses : Nat → DmiResponse) : Prop :=
  ∀ count, loop.run responses count = .past →
    ∃ index < count, loop.readAt responses index = some dmStatusAddr ∧
      allhalted (responses index).data = true

theorem vip_waitsForHalt {ρ : Type} (readDmiExpBackoff : Reader ρ)
    (responses : Nat → DmiResponse) :
    WaitsForHalt (vipJtagElfHaltLoad readDmiExpBackoff) responses := by
  intro count past
  obtain ⟨index, below, reads, ended⟩ := past_after_read _ responses past
  exact ⟨index, below, reads, by simpa [vipJtagElfHaltLoad] using ended⟩

theorem again_iff (status : BitVec 32) :
    jtagElfHaltLoad.again status = false ↔ allhalted status = false := by
  have mask : status &&& 0x200 = if status.getLsbD 9 then BitVec.twoPow 32 9 else 0 :=
    BitVec.and_twoPow status 9
  change decide (status &&& 0x200 ≠ 0) = false ↔ status.getLsbD 9 = false
  rw [mask]
  cases status.getLsbD 9 <;> decide

/-- The simulator gets past on the first answer that is not busy and has bit 9 clear, in a
register where that bit says nothing about the hart. -/
theorem testbench_past_iff (responses : Nat → DmiResponse) (count : Nat) :
    jtagElfHaltLoad.run responses count = .past ↔
      ∃ index < count, (responses index).op ≠ dtmBusy ∧
        allhalted (responses index).data = false := by
  constructor
  · intro past
    obtain ⟨index, below, trial, _, done, ended⟩ := (past_iff _ responses count).mp past
    refine ⟨index, below, ?_, (again_iff _).mp ended⟩
    intro busy
    change (if (responses index).op = dtmBusy then _ else none) = none at done
    rw [if_pos busy] at done
    cases done
  · rintro ⟨index, below, notBusy, clear⟩
    rw [past_iff]
    cases phase : jtagElfHaltLoad.run responses index with
    | past =>
        obtain ⟨earlier, before, ended⟩ := (past_iff _ responses index).mp phase
        exact ⟨earlier, by omega, ended⟩
    | waiting trial =>
        exact ⟨index, below, trial, phase, if_neg notBusy, (again_iff _).mpr clear⟩

theorem testbench_reads_control {responses : Nat → DmiResponse} {index : Nat} :
    jtagElfHaltLoad.readAt responses index ≠ some dmStatusAddr := by
  intro reads
  exact absurd (readAt_addr _ responses reads) (by decide)

/-- The simulator does as the SystemVerilog task does. -/
structure HaltsAsVip {ρ : Type} (readDmiExpBackoff : Reader ρ) (responses : Nat → DmiResponse) :
    Prop where
  waits : WaitsForHalt jtagElfHaltLoad responses
  sameReads : ∀ index, jtagElfHaltLoad.readAt responses index =
    (vipJtagElfHaltLoad readDmiExpBackoff).readAt responses index

/-- There are no responses for which the simulator does as the task does. It waits for the halt
only where it waits forever. -/
theorem never_halts_as_vip {ρ : Type} (readDmiExpBackoff : Reader ρ)
    (responses : Nat → DmiResponse) :
    ¬HaltsAsVip readDmiExpBackoff responses ∧
      (WaitsForHalt jtagElfHaltLoad responses ↔
        ∀ index, (responses index).op = dtmBusy ∨ allhalted (responses index).data = true) := by
  constructor
  · intro same
    have first : some dmControlAddr = some dmStatusAddr := same.sameReads 0
    exact absurd first (by decide)
  · constructor
    · intro waits index
      by_contra ended
      rw [not_or, Bool.not_eq_true] at ended
      obtain ⟨_, _, reads, _⟩ := waits (index + 1)
        ((testbench_past_iff responses (index + 1)).mpr ⟨index, by omega, ended⟩)
      exact testbench_reads_control reads
    · intro never count past
      obtain ⟨index, _, notBusy, clear⟩ := (testbench_past_iff responses count).mp past
      rcases never index with busy | halted
      · exact absurd busy notBusy
      · rw [halted] at clear
        cases clear

/-- A hart that does not halt: the first answer lets the simulator go on, the task waits. -/
theorem loads_running_hart :
    let running : Nat → DmiResponse := fun _ => 0
    jtagElfHaltLoad.run running 1 = .past ∧
      (vipJtagElfHaltLoad jtagReadDmiExpBackoff).run running 1 ≠ .past ∧
      ¬HaltsAsVip jtagReadDmiExpBackoff running := by
  refine ⟨by decide, by decide, fun same => ?_⟩
  have first : some dmControlAddr = some dmStatusAddr := same.sameReads 0
  exact absurd first (by decide)

end Atalanta.HaltLoad
