import Atalanta.Clic.Driver

/-! The pending bit under the driver's configuration calls: what happens to the events of the
hardware that fall between the read and the write of a call. -/

namespace Atalanta.Clic

open BitField Bsp BusProgram Clocked

def Call.Configures (call : Call) : Prop := call.field ≠ .ip

instance (call : Call) : Decidable call.Configures := inferInstanceAs (Decidable (_ ≠ _))

def pendingAfter (events : Nat → HwToReg) (ip : BitVec 1) (cycles : List Nat) : BitVec 1 :=
  cycles.foldl (fun ip cycle => (events cycle).update ip) ip

def lastEvent (events : Nat → HwToReg) : List Nat → Option (BitVec 1)
  | [] => none
  | cycle :: cycles =>
    match lastEvent events cycles with
    | some d => some d
    | none => if (events cycle).de then some (events cycle).d else none

theorem pendingAfter_eq_lastEvent (events : Nat → HwToReg) (ip : BitVec 1) (cycles : List Nat) :
    pendingAfter events ip cycles = (lastEvent events cycles).getD ip := by
  induction cycles generalizing ip with
  | nil => rfl
  | cons cycle cycles ih =>
      have rest := ih ((events cycle).update ip)
      simp only [pendingAfter, List.foldl_cons, lastEvent] at rest ⊢
      rw [rest]
      cases lastEvent events cycles with
      | some d => rfl
      | none =>
          simp only [Option.getD_none, HwToReg.update]
          split <;> rfl

theorem pendingAfter_append (events : Nat → HwToReg) (ip : BitVec 1) (early late : List Nat) :
    pendingAfter events ip (early ++ late) =
      pendingAfter events (pendingAfter events ip early) late :=
  List.foldl_append

def between (first last : Nat) : List Nat := List.range' first (last - first)

/-- The cycles outside the intervals from the read to the write of a call. -/
def outside (first last : Nat) : List (Nat × Nat) → List Nat
  | [] => between first last
  | (read, write) :: gaps => between first read ++ outside (write + 1) last gaps

def gapsOn (number : BitVec 16) : List (BitVec 16 × Call) → List Nat → List (Nat × Nat)
  | (other, _) :: calls, read :: write :: accesses =>
    if other = number then (read, write) :: gapsOn number calls accesses
    else gapsOn number calls accesses
  | _, _ => []

section Runs

variable {subreg : PrimSubreg} {reg : Reg} (subregDocumented : subreg.Documented)
  (regDocumented : reg.Documented) {start : BitVec 32 → State} {input : Nat → BankInput}
  {block : BitVec 32}

include subregDocumented in
theorem ip_follows {first last : Nat} (order : first ≤ last)
    (spared : ∀ cycle, first ≤ cycle → cycle < last → Spared block (input cycle)) :
    ((bank subreg).runFrom start input last block).ip =
      pendingAfter (fun cycle => (input cycle).ip block)
        ((bank subreg).runFrom start input first block).ip (between first last) := by
  obtain ⟨cycles, rfl⟩ := Nat.exists_eq_add_of_le order
  induction cycles with
  | zero => simp [between, pendingAfter]
  | succ cycles ih =>
      have before := ih (by omega) fun cycle above below => spared cycle above (by omega)
      have listed : between first (first + (cycles + 1)) =
          between first (first + cycles) ++ [first + cycles] := by
        simp [between, List.range'_concat]
      rw [← Nat.add_assoc, Circuit.runFrom_succ,
        bank_spared subregDocumented _ _ (spared _ (by omega) (by omega)), before,
        Nat.add_assoc, listed, pendingAfter_append]
      rfl

include subregDocumented in
theorem ip_written {call : Call} (configures : call.Configures) {read write : Nat}
    (writes : bankBus.writes block
      (call.change (word ((bank subreg).runFrom start input read block))) (input write)) :
    ((bank subreg).runFrom start input (write + 1) block).ip =
      ((bank subreg).runFrom start input read block).ip := by
  rw [Circuit.runFrom_succ, bank_write subregDocumented _ _ writes]
  have kept : (call.change (word ((bank subreg).runFrom start input read block))).extractLsb' 0 1 =
      (word ((bank subreg).runFrom start input read block)).extractLsb' 0 1 :=
    field_putField_apart _ _ _ _ (by decide) (Field.apart (Ne.symm configures))
  exact kept.trans (word_field _ .ip)

theorem performs_modify {ptr : BitVec 32} {change : BitVec 32 → BitVec 32}
    {rest : Unit → Driver Unit} {first last : Nat} {accesses : List Nat}
    (performs : Performs (bank subreg) bankBus Idle start input ((modify ptr change).bind rest)
      first accesses last ()) :
    ∃ read write later, accesses = read :: write :: later ∧
      Passes Idle input first read ∧ bankBus.reads ptr (input read) ∧
      Passes Idle input (read + 1) write ∧
      bankBus.writes ptr (change (word ((bank subreg).runFrom start input read ptr)))
        (input write) ∧
      Performs (bank subreg) bankBus Idle start input (rest ()) (write + 1) later last () := by
  obtain ⟨read, afterRead, rfl, before, reads, performs⟩ := Performs.of_read performs
  obtain ⟨write, later, rfl, gap, writes, performs⟩ := Performs.of_write performs
  have data : bankBus.data ((bank subreg).outFrom start input read) =
      word ((bank subreg).runFrom start input read ptr) := bank_data _ _ reads
  rw [data] at writes
  exact ⟨read, write, later, rfl, before, reads, gap, writes, performs⟩

theorem Passes.spared {first last : Nat} (passes : Passes Idle input first last)
    (block : BitVec 32) (cycle : Nat) (above : first ≤ cycle) (below : cycle < last) :
    Spared block (input cycle) :=
  Idle.spared (passes.2 cycle above below) block

include subregDocumented regDocumented in
/-- Over a run of calls the pending bit is that of the events outside the gaps. The cycles since
`since` have already spared the word. -/
theorem pending_run (number : BitVec 16) (calls : List (BitVec 16 × Call))
    (configures : ∀ set ∈ calls, set.2.Configures) {since first last : Nat} {accesses : List Nat}
    (order : since ≤ first)
    (spared : ∀ cycle, since ≤ cycle → cycle < first → Spared (intAddr number) (input cycle))
    (performs : Performs (bank subreg) bankBus Idle start input (callAll reg calls) first accesses
      last ()) :
    ((bank subreg).runFrom start input last (intAddr number)).ip =
      pendingAfter (fun cycle => (input cycle).ip (intAddr number))
        ((bank subreg).runFrom start input since (intAddr number)).ip
        (outside since last (gapsOn number calls accesses)) := by
  induction calls generalizing since first accesses with
  | nil =>
      obtain ⟨rfl, _, passes⟩ := Performs.of_done performs
      refine ip_follows subregDocumented (Nat.le_trans order passes.1) fun cycle above below => ?_
      by_cases early : cycle < first
      · exact spared cycle above early
      · exact Passes.spared passes _ cycle (by omega) below
  | cons set calls ih =>
      obtain ⟨other, call⟩ := set
      have callConfigures : call.Configures := configures _ (List.mem_cons_self ..)
      have restConfigure : ∀ set ∈ calls, set.2.Configures := fun set inside =>
        configures set (List.mem_cons_of_mem _ inside)
      rw [callAll, call.run_eq regDocumented other] at performs
      obtain ⟨read, write, later, rfl, before, reads, gap, writes, performs⟩ :=
        performs_modify performs
      have readFirst := before.1
      have writeAfter := gap.1
      have untilRead : ∀ cycle, since ≤ cycle → cycle < read →
          Spared (intAddr number) (input cycle) := by
        intro cycle above below
        by_cases early : cycle < first
        · exact spared cycle above early
        · exact Passes.spared before _ cycle (by omega) below
      by_cases own : other = number
      · subst own
        have gaps : gapsOn other ((other, call) :: calls) (read :: write :: later) =
            (read, write) :: gapsOn other calls later := by simp [gapsOn]
        have rest := ih restConfigure (Nat.le_refl (write + 1))
          (fun _ above below => absurd above (by omega)) performs
        rw [gaps, outside, pendingAfter_append,
          ← ip_follows subregDocumented (Nat.le_trans order readFirst) untilRead, rest,
          ip_written subregDocumented callConfigures writes]
      · have gaps : gapsOn number ((other, call) :: calls) (read :: write :: later) =
            gapsOn number calls later := by simp [gapsOn, own]
        rw [gaps]
        refine ih restConfigure (by omega) (fun cycle above below => ?_) performs
        rcases Nat.lt_trichotomy cycle read with early | rfl | late
        · exact untilRead cycle above early
        · exact spared_of_reads reads _
        · by_cases inGap : cycle < write
          · exact Passes.spared gap _ cycle late inGap
          · obtain rfl : cycle = write := by omega
            exact spared_of_writes writes fun same => own (intAddr_injective same)

end Runs

/-- Configuration calls keep the pending bit of an interrupt if and only if the hardware's last
event outside the intervals from a read to its write leaves what its last event leaves. -/
theorem pending_kept_iff {subreg : PrimSubreg} {reg : Reg} (subregDocumented : subreg.Documented)
    (regDocumented : reg.Documented) (start : BitVec 32 → State) (input : Nat → BankInput)
    (number : BitVec 16) (calls : List (BitVec 16 × Call))
    (configures : ∀ set ∈ calls, set.2.Configures) (first last : Nat) (accesses : List Nat)
    (performs : Performs (bank subreg) bankBus Idle start input (callAll reg calls) first accesses
      last ()) :
    let ip := fun cycle => ((bank subreg).runFrom start input cycle (intAddr number)).ip
    let events := fun cycle => (input cycle).ip (intAddr number)
    ip last = pendingAfter events (ip first) (between first last) ↔
      (lastEvent events (outside first last (gapsOn number calls accesses))).getD (ip first) =
        (lastEvent events (between first last)).getD (ip first) := by
  intro ip events
  have run := pending_run subregDocumented regDocumented number calls configures
    (Nat.le_refl first) (fun _ above below => absurd above (by omega)) performs
  change ip last = _ at run
  rw [run, pendingAfter_eq_lastEvent, pendingAfter_eq_lastEvent]

/-- `set_level` on interrupt 3 with the write in the third cycle, and an edge in the cycle
given. -/
def setLevelEdge (edge : Nat) (cycle : Nat) : BankInput :=
  let ip _ := ⟨decide (cycle = edge), 1⟩
  match cycle with
  | 0 => readAt (intAddr 3) ip
  | 2 => writeAt (intAddr 3) ((Call.setLevel 0x88).change (word (circuit storage).reset)) ip
  | _ => idleAt ip

theorem setLevelEdge_performs (edge : Nat) :
    Performs (bank storage) bankBus Idle (fun _ => (circuit storage).reset) (setLevelEdge edge)
      (callAll wordReg [(3, .setLevel 0x88)]) 0 [0, 2] 4 () := by
  have reads : bankBus.reads (intAddr 3) (setLevelEdge edge 0) := ⟨rfl, rfl, rfl, rfl⟩
  have writes : bankBus.writes (intAddr 3)
      ((Call.setLevel 0x88).change (word (circuit storage).reset)) (setLevelEdge edge 2) :=
    ⟨rfl, rfl⟩
  exact .read reads (.wait rfl (.write writes (.wait rfl (.done () 4))))

theorem pending_kept_after_write :
    ((bank storage).runFrom (fun _ => (circuit storage).reset) (setLevelEdge 3) 4
        (intAddr 3)).ip =
      pendingAfter (fun cycle => (setLevelEdge 3 cycle).ip (intAddr 3))
        (circuit storage).reset.ip (between 0 4) :=
  (pending_kept_iff storage_documented wordReg_documented _ _ 3 _ (by decide) 0 4 _
    (setLevelEdge_performs 3)).mpr (by decide)

/-- An edge between the read and the write of `set_level` is lost. -/
theorem edge_lost :
    Performs (bank storage) bankBus Idle (fun _ => (circuit storage).reset) (setLevelEdge 1)
        (callAll wordReg [(3, .setLevel 0x88)]) 0 [0, 2] 4 () ∧
      ((bank storage).runFrom (fun _ => (circuit storage).reset) (setLevelEdge 1) 4
        (intAddr 3)).ip = 0 ∧
      pendingAfter (fun cycle => (setLevelEdge 1 cycle).ip (intAddr 3))
        (circuit storage).reset.ip (between 0 4) = 1 := by
  refine ⟨setLevelEdge_performs 1, ?_, by decide⟩
  have run := pending_run storage_documented wordReg_documented 3 _ (by decide) (Nat.le_refl 0)
    (fun _ _ below => absurd below (by omega)) (setLevelEdge_performs 1)
  exact run.trans (by decide)

end Atalanta.Clic
