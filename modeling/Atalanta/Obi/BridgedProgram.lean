import Atalanta.Bsp.MTimer
import Atalanta.MockUart
import Atalanta.Obi.ToApbResponse

/-! Drivers that a manager runs through the bridge: which accesses the completer sees of them, and
what their reads return. -/

namespace Atalanta.ObiToApb

open Bsp BusProgram Clocked Handshake

/-- A manager with one request at a time, which it holds until the grant. The data of a read are
those of the cycle after the grant. -/
inductive Manages (answers : Nat → Output) (obi : Nat → ObiReq) {β : Type} :
    Driver β → Nat → List Nat → Nat → β → Prop
  | done (value : β) (cycle : Nat) : Manages answers obi (.done value) cycle [] cycle value
  | wait {program : Driver β} {cycle last : Nat} {accesses : List Nat} {value : β} :
      (obi cycle).req = false → Manages answers obi program (cycle + 1) accesses last value →
      Manages answers obi program cycle accesses last value
  | read {addr : BitVec 32} {rest : BitVec 32 → Driver β} {cycle grant last : Nat}
      {accesses : List Nat} {value : β} :
      (∀ middle, cycle ≤ middle → middle ≤ grant → obi middle = .read addr) →
      (∀ middle, cycle ≤ middle → middle < grant → (answers middle).gnt = false) →
      cycle ≤ grant → (answers grant).gnt = true →
      Manages answers obi (rest (answers (grant + 1)).rdata) (grant + 1) accesses last value →
      Manages answers obi (.read addr rest) cycle (grant :: accesses) last value
  | write {addr data : BitVec 32} {rest : Driver β} {cycle grant last : Nat}
      {accesses : List Nat} {value : β} :
      (∀ middle, cycle ≤ middle → middle ≤ grant → obi middle = .write addr 0b1111 data) →
      (∀ middle, cycle ≤ middle → middle < grant → (answers middle).gnt = false) →
      cycle ≤ grant → (answers grant).gnt = true →
      Manages answers obi rest (grant + 1) accesses last value →
      Manages answers obi (.write addr data rest) cycle (grant :: accesses) last value

section Bridged

variable {σ ο : Type} (completer : Circuit σ ApbIn ο) (apb : ο → ApbOut) (obi : Nat → ObiReq)

/-- A completer without wait states, and what its data lines show of an access in the cycle
after it. -/
structure ShowsAfter (seen : BitVec 32 → BitVec 32) : Prop where
  pready : ∀ state bus, bus.penable = true → (apb (completer.out state bus)).pready = true
  prdata : ∀ state bus after, bus.penable = true → after.penable = false →
    (apb (completer.out (completer.next state bus) after)).prdata =
      seen (apb (completer.out state bus)).prdata

variable {completer apb} in
theorem guarded_showsAfter (guarded : ApbSelection.EnableGuarded completer apb) :
    ShowsAfter completer apb fun _ => 0 where
  pready state bus enabled := (guarded.pready state bus).trans enabled
  prdata _ _ _ _ disabled := guarded.prdata _ _ disabled

theorem mockUart_showsAfter :
    ShowsAfter MockUart.circuit MockUart.Output.toApbOut fun _ => 0 where
  pready _ _ _ := rfl
  prdata _ _ after _ disabled := if_neg (by simp [MockUart.reads, disabled])

def bridgeState (cycle : Nat) : State := ((attached completer apb).run obi cycle).1

/-- What the completer sees of the bridge. -/
def bridgedBus (cycle : Nat) : ApbIn := busOf (bridgeState completer apb obi cycle) (obi cycle)

theorem bridged_completer (cycle : Nat) :
    ((attached completer apb).run obi cycle).2 =
      completer.run (bridgedBus completer apb obi) cycle := by
  induction cycle with
  | zero => rfl
  | succ cycle ih =>
      rw [Circuit.run_succ completer, ← ih]
      rfl

variable {completer apb obi} {seen : BitVec 32 → BitVec 32}
  (shows : ShowsAfter completer apb seen)

theorem bridged_penable (cycle : Nat) :
    (bridgedBus completer apb obi cycle).penable = true ↔
      bridgeState completer apb obi cycle = .access :=
  penable_iff _ _ _

include shows

theorem bridged_gnt (cycle : Nat) :
    ((attached completer apb).outAt obi cycle).gnt = true ↔
      bridgeState completer apb obi cycle = .access := by
  refine (gnt_iff _ _ _).trans ⟨And.left, fun inAccess => ⟨inAccess, ?_⟩⟩
  exact shows.pready _ _ ((penable_iff _ _ _).mpr inAccess)

theorem bridged_next (cycle : Nat) :
    bridgeState completer apb obi (cycle + 1) =
      match bridgeState completer apb obi cycle with
      | .access => .handshake
      | .setup | .handshake => if (obi cycle).req then .access else .setup := by
  obtain ⟨pready, ready, step⟩ : ∃ pready,
      (bridgeState completer apb obi cycle = .access → pready = true) ∧
      bridgeState completer apb obi (cycle + 1) =
        (apbFsm (bridgeState completer apb obi cycle) (obi cycle).req pready).stateD :=
    ⟨_, fun inAccess => shows.pready _ _ ((penable_iff _ _ _).mpr inAccess), rfl⟩
  rw [step]
  cases state : bridgeState completer apb obi cycle with
  | setup => rfl
  | handshake => rfl
  | access => rw [ready state]; rfl

theorem bridged_rdata {cycle : Nat} (inAccess : bridgeState completer apb obi cycle = .access) :
    ((attached completer apb).outAt obi (cycle + 1)).rdata =
      seen (apb (completer.outAt (bridgedBus completer apb obi) cycle)).prdata := by
  have responds : bridgeState completer apb obi (cycle + 1) = .handshake := by
    rw [bridged_next shows, inAccess]
  have silent : (bridgedBus completer apb obi (cycle + 1)).penable = false := by
    rw [bridgedBus, responds]
    rfl
  have enabled := (bridged_penable cycle).mpr inAccess
  have answer :=
    shows.prdata (completer.run (bridgedBus completer apb obi) cycle) _ _ enabled silent
  rw [← Circuit.run_succ, ← bridged_completer] at answer
  exact answer

/-- A request that waits outside the access phase is granted in the next cycle. -/
theorem bridged_grant {cycle grant : Nat} (free : bridgeState completer apb obi cycle ≠ .access)
    (asks : (obi cycle).req = true) (order : cycle ≤ grant)
    (waits : ∀ middle, cycle ≤ middle → middle < grant →
      ((attached completer apb).outAt obi middle).gnt = false)
    (granted : ((attached completer apb).outAt obi grant).gnt = true) :
    grant = cycle + 1 ∧ bridgeState completer apb obi (cycle + 1) = .access := by
  have entered : bridgeState completer apb obi (cycle + 1) = .access := by
    rw [bridged_next shows]
    cases state : bridgeState completer apb obi cycle with
    | access => exact absurd state free
    | setup => rw [asks]; rfl
    | handshake => rw [asks]; rfl
  refine ⟨?_, entered⟩
  have early : grant ≠ cycle := by
    rintro rfl
    exact free ((bridged_gnt shows grant).mp granted)
  by_contra late
  have refused := waits (cycle + 1) (by omega) (by omega)
  rw [(bridged_gnt shows (cycle + 1)).mpr entered] at refused
  cases refused

/-- Each access is granted in the cycle after its request comes up on the idle line. -/
def Granted (obi : Nat → ObiReq) : (free : Nat) → List Nat → Prop
  | _, [] => True
  | free, grant :: later =>
    (∃ request, free ≤ request ∧
      (∀ middle, free ≤ middle → middle < request → (obi middle).req = false) ∧
      (obi request).req = true ∧ grant = request + 1) ∧
    Granted obi (grant + 1) later

omit shows in
theorem Granted.wait {cycle : Nat} {accesses : List Nat} (idle : (obi cycle).req = false)
    (granted : Granted obi (cycle + 1) accesses) : Granted obi cycle accesses := by
  cases accesses with
  | nil => trivial
  | cons grant later =>
      obtain ⟨⟨request, order, before, asks, next⟩, rest⟩ := granted
      refine ⟨⟨request, Nat.le_of_succ_le order, fun middle after early => ?_, asks, next⟩, rest⟩
      by_cases first : middle = cycle
      · exact first ▸ idle
      · exact before middle (by omega) early

omit shows in
theorem Granted.cons {cycle : Nat} {accesses : List Nat} (asks : (obi cycle).req = true)
    (granted : Granted obi (cycle + 2) accesses) : Granted obi cycle ((cycle + 1) :: accesses) :=
  ⟨⟨cycle, Nat.le_refl cycle, fun _ after early => absurd early (Nat.not_lt.mpr after), asks,
    rfl⟩, granted⟩

theorem manages_performs {β : Type} {program : Driver β} {first last : Nat} {accesses : List Nat}
    {value : β} (free : bridgeState completer apb obi first ≠ .access)
    (manages : Manages ((attached completer apb).outAt obi) obi program first accesses last
      value) :
    Performs completer (apbBus apb) (fun bus => bus.penable = false) completer.reset
        (bridgedBus completer apb obi) (program.through seen) first accesses last value ∧
      Granted obi first accesses := by
  have quiet : ∀ cycle, bridgeState completer apb obi cycle ≠ .access →
      (bridgedBus completer apb obi cycle).penable = false := by
    intro cycle free
    rw [Bool.eq_false_iff]
    exact fun enabled => free ((bridged_penable cycle).mp enabled)
  have answered : ∀ {cycle}, bridgeState completer apb obi cycle = .access →
      bridgeState completer apb obi (cycle + 1) ≠ .access := by
    intro cycle inAccess
    rw [bridged_next shows, inAccess]
    exact nofun
  induction manages with
  | done value cycle => exact ⟨.done value cycle, trivial⟩
  | @wait _ cycle _ _ _ idle _ ih =>
      have stays : bridgeState completer apb obi (cycle + 1) ≠ .access := by
        rw [bridged_next shows, idle]
        cases bridgeState completer apb obi cycle <;> exact nofun
      obtain ⟨runs, granted⟩ := ih stays
      exact ⟨.wait (quiet cycle free) runs, granted.wait idle⟩
  | @read addr rest cycle grant _ _ _ asks waits order granted _ ih =>
      have requests : (obi cycle).req = true := by rw [asks cycle (Nat.le_refl cycle) order]; rfl
      obtain ⟨rfl, inAccess⟩ := bridged_grant shows free requests order waits granted
      obtain ⟨runs, later⟩ := ih (answered inAccess)
      rw [bridged_rdata shows inAccess] at runs
      have carried : bridgedBus completer apb obi (cycle + 1) = ⟨true, true, false, addr, 0⟩ := by
        rw [bridgedBus, asks (cycle + 1) order (Nat.le_refl _), inAccess]
        rfl
      refine ⟨.wait (quiet cycle free) (.read ?_ runs), later.cons requests⟩
      rw [carried]
      exact ⟨rfl, rfl, rfl, rfl⟩
  | @write addr data _ cycle grant _ _ _ asks waits order granted _ ih =>
      have requests : (obi cycle).req = true := by rw [asks cycle (Nat.le_refl cycle) order]; rfl
      obtain ⟨rfl, inAccess⟩ := bridged_grant shows free requests order waits granted
      obtain ⟨runs, later⟩ := ih (answered inAccess)
      refine ⟨.wait (quiet cycle free) (.write ?_ runs), later.cons requests⟩
      change bridgedBus completer apb obi (cycle + 1) = _
      rw [bridgedBus, asks (cycle + 1) order (Nat.le_refl _), inAccess]
      rfl

/-- The completer performs the accesses of every program in their order, each in the cycle after its
request comes up, and the program gets from its reads what the lines show after them: the data if
the completer holds them, zero if it drives them only while it is enabled. -/
theorem bridged_program {β : Type} {program : Driver β} {last : Nat} {accesses : List Nat}
    {value : β}
    (manages : Manages ((attached completer apb).outAt obi) obi program 0 accesses last value) :
    Performs completer (apbBus apb) (fun bus => bus.penable = false) completer.reset
        (bridgedBus completer apb obi) (program.through seen) 0 accesses last value ∧
      Granted obi 0 accesses :=
  manages_performs shows nofun manages

end Bridged

-- a bit set in the line control of `mock_uart`, with a pause before the write
def lineRequests (cycle : Nat) : ObiReq :=
  if cycle < 2 then .read 0x3010C
  else if cycle = 2 then .idle
  else if cycle < 5 then .write 0x3010C 0b1111 0x80
  else .idle

theorem line_manages :
    Manages ((attached MockUart.circuit MockUart.Output.toApbOut).outAt lineRequests) lineRequests
      (maskU32 0x3010C 0x80) 0 [1, 4] 5 () := by
  refine .read ?_ ?_ (by decide) rfl (.wait rfl ?_)
  · intro middle _ early
    exact if_pos (Nat.lt_succ_of_le early)
  · intro middle _ early
    interval_cases middle
    rfl
  refine .write ?_ ?_ (by decide) rfl (.done () 5)
  all_goals
    intro middle late early
    interval_cases middle <;> rfl

theorem bridged_program_line :
    Performs MockUart.circuit (apbBus MockUart.Output.toApbOut) (fun bus => bus.penable = false)
        MockUart.circuit.reset
        (bridgedBus MockUart.circuit MockUart.Output.toApbOut lineRequests)
        ((maskU32 0x3010C 0x80).through fun _ => 0) 0 [1, 4] 5 () ∧
      Granted lineRequests 0 [1, 4] :=
  bridged_program mockUart_showsAfter line_manages

/-! The machine timer -/

def timerOutput (obi : Nat → ObiReq) : Nat → Output :=
  (attached ApbMtimer.circuit ApbMtimer.Output.toApbOut).outAt obi

def timerBus (obi : Nat → ObiReq) : Nat → ApbIn :=
  bridgedBus ApbMtimer.circuit ApbMtimer.Output.toApbOut obi

theorem bridged_setHalves {obi : Nat → ObiReq} {first last : Nat} {accesses : List Nat}
    {hi lo : BitVec 32}
    (free : bridgeState ApbMtimer.circuit ApbMtimer.Output.toApbOut obi first ≠ .access)
    (manages : Manages (timerOutput obi) obi (setHalves hi lo) first accesses last ()) :
    NoSpuriousIrq ApbMtimer.circuit.reset (timerBus obi) first last (hi ++ lo) := by
  have shows := guarded_showsAfter ApbSelection.mtimer_guarded
  have performs := (manages_performs shows free manages).1
  refine setHalves_no_spurious_irq (performs.mono fun bus disabled => ?_)
  rintro ⟨strobe, _⟩
  rw [ApbMtimer.writes, disabled] at strobe
  cases strobe

/-- After any traffic over the bridge, reprogramming the compare value over it raises no spurious
interrupt, however long the manager waits between its requests. -/
theorem set_cmp_over_bridge (obi : Nat → ObiReq) (first last : Nat) (accesses : List Nat)
    (free : bridgeState ApbMtimer.circuit ApbMtimer.Output.toApbOut obi first ≠ .access) :
    (∀ cmp, Manages (timerOutput obi) obi (MTimer.setCmp cmp) first accesses last () →
      NoSpuriousIrq ApbMtimer.circuit.reset (timerBus obi) first last cmp) ∧
    (∀ cmp, Manages (timerOutput obi) obi (MTimerLo.setCmp cmp) first accesses last () →
      NoSpuriousIrq ApbMtimer.circuit.reset (timerBus obi) first last (cmp.setWidth 64)) := by
  constructor
  · intro cmp manages
    rw [← words_append cmp]
    exact bridged_setHalves free manages
  · intro cmp manages
    rw [← zero_append]
    exact bridged_setHalves free manages

-- the timer is set to 100 and enabled before
def reprogramRequests (cycle : Nat) : ObiReq :=
  if cycle < 2 then .write (mtimerBase + mtimecmpLowAddrOfs) 0b1111 100
  else if cycle < 4 then .write (mtimerBase + mtimeCtrlAddrOfs) 0b1111 1
  else if cycle < 6 then .write (mtimerBase + mtimecmpLowAddrOfs) 0b1111 (BitVec.allOnes 32)
  else if cycle = 6 then .idle
  else if cycle < 9 then .write (mtimerBase + mtimecmpHighAddrOfs) 0b1111 0
  else if cycle < 11 then .write (mtimerBase + mtimecmpLowAddrOfs) 0b1111 2
  else .idle

theorem reprogram_manages :
    Manages (timerOutput reprogramRequests) reprogramRequests (MTimer.setCmp 2) 4 [5, 8, 10] 11
      () := by
  refine .write ?_ ?_ (by decide) rfl (.wait rfl (.write ?_ ?_ (by decide) rfl
    (.write ?_ ?_ (by decide) rfl (.done () 11))))
  all_goals
    intro middle late early
    interval_cases middle <;> rfl

/-- The interrupt comes when the new value is there, which the count has passed by then. -/
theorem set_cmp_over_bridge_reprogram :
    NoSpuriousIrq ApbMtimer.circuit.reset (timerBus reprogramRequests) 4 11 2 ∧
      (ApbMtimer.circuit.outFrom ApbMtimer.circuit.reset (timerBus reprogramRequests)
        10).timerIrq = false ∧
      (ApbMtimer.circuit.outFrom ApbMtimer.circuit.reset (timerBus reprogramRequests)
        11).timerIrq = true :=
  ⟨(set_cmp_over_bridge reprogramRequests 4 11 [5, 8, 10] (by decide)).1 _ reprogram_manages,
    by decide, by decide⟩

end Atalanta.ObiToApb
