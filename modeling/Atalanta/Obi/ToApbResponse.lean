import Atalanta.ApbSelection
import Atalanta.Obi.ToApb

/-! The response side of the bridge: `rdata` and `err` are wired to the completer, which the
manager samples one cycle after the access that they belong to. -/

namespace Atalanta.ObiToApb

open Clocked Handshake

def DrivesOnCompletion (input : Nat → Input) : Prop :=
  ∀ cycle, (apbAccess input cycle).beat.fires = false →
    (input cycle).apb.prdata = 0 ∧ (input cycle).apb.pslverr = false

/-- The transaction granted in this cycle is answered in the next one, with the data and
the error of its access. -/
def AnswersOwnAccess (input : Nat → Input) (cycle : Nat) : Prop :=
  (circuit.outAt input (cycle + 1)).rvalid = true ∧
    (circuit.outAt input (cycle + 1)).rdata = (input cycle).apb.prdata ∧
    (circuit.outAt input (cycle + 1)).err = (input cycle).apb.pslverr

theorem not_fires_of_rvalid (input : Nat → Input) (cycle : Nat)
    (responds : (circuit.outAt input cycle).rvalid = true) :
    (apbAccess input cycle).beat.fires = false := by
  have inHandshake : circuit.run input cycle = .handshake := (rvalid_iff _ _ _).mp responds
  rw [Bool.eq_false_iff]
  intro fires
  simp only [Beat.fires, Access.beat, Bool.and_eq_true] at fires
  have inAccess := (enable_iff input cycle).mp fires.1.2
  rw [inHandshake] at inAccess
  cases inAccess

/-- Behind the bridge a completer that drives its lines in the access cycle only answers
every transaction with zero, so the answer is right exactly when it was zero. -/
theorem answers_own_access_iff (input : Nat → Input) (held : Held (obiBeat input))
    (drives : DrivesOnCompletion input) (cycle : Nat)
    (granted : (obiBeat input cycle).fires = true) :
    AnswersOwnAccess input cycle ↔
      (input cycle).apb.prdata = 0 ∧ (input cycle).apb.pslverr = false := by
  have responds : (circuit.outAt input (cycle + 1)).rvalid = true :=
    (rvalid_after_grant input held (cycle + 1)).mpr ⟨cycle, rfl, granted⟩
  have silent := drives (cycle + 1) (not_fires_of_rvalid input (cycle + 1) responds)
  have rdata : (circuit.outAt input (cycle + 1)).rdata = 0 := silent.1
  have err : (circuit.outAt input (cycle + 1)).err = false := silent.2
  unfold AnswersOwnAccess
  rw [rdata, err]
  constructor
  · rintro ⟨_, data, error⟩
    exact ⟨data.symm, error.symm⟩
  · rintro ⟨data, error⟩
    exact ⟨responds, data.symm, error.symm⟩

section Attached

variable {σ ο : Type} (completer : Circuit σ ApbIn ο) (apb : ο → ApbOut)

def busOf (state : State) (obi : ObiReq) : ApbIn := (out state ⟨obi, ⟨0, false, false⟩⟩).apb

def attachedInput (state : State) (device : σ) (obi : ObiReq) : Input where
  obi := obi
  apb := apb (completer.out device (busOf state obi))

def attached : Circuit (State × σ) ObiReq Output where
  reset := (.setup, completer.reset)
  next system obi :=
    (next system.1 (attachedInput completer apb system.1 system.2 obi),
      completer.next system.2 (busOf system.1 obi))
  out system obi := out system.1 (attachedInput completer apb system.1 system.2 obi)

def attachedRun (obi : Nat → ObiReq) (cycle : Nat) : Input :=
  let system := (attached completer apb).run obi cycle
  attachedInput completer apb system.1 system.2 (obi cycle)

theorem attached_run_bridge (obi : Nat → ObiReq) (cycle : Nat) :
    circuit.run (attachedRun completer apb obi) cycle =
      ((attached completer apb).run obi cycle).1 := by
  induction cycle with
  | zero => rfl
  | succ cycle ih =>
      rw [circuit.run_succ, ih]
      rfl

variable {completer apb}

theorem guarded_drives (guarded : ApbSelection.EnableGuarded completer apb)
    (obi : Nat → ObiReq) (held : Held (obiBeat (attachedRun completer apb obi))) :
    DrivesOnCompletion (attachedRun completer apb obi) := by
  intro cycle incomplete
  have state := attached_run_bridge completer apb obi cycle
  have disabled : (busOf ((attached completer apb).run obi cycle).1 (obi cycle)).penable =
      false := by
    rw [Bool.eq_false_iff]
    intro enabled
    have inAccess : circuit.run (attachedRun completer apb obi) cycle = .access := by
      rw [state]
      exact (penable_iff _ _ _).mp enabled
    have pending := (access_outstanding _ held cycle inAccess).1
    have ready : (attachedRun completer apb obi cycle).apb.pready = true :=
      (guarded.pready _ _).trans enabled
    have fires : (obiBeat (attachedRun completer apb obi) cycle).fires = true := by
      have granted := (ready_iff _ cycle).mpr ⟨inAccess, ready⟩
      simp [Beat.fires, pending, granted]
    rw [fires_eq, incomplete] at fires
    cases fires
  exact ⟨guarded.prdata _ _ disabled, guarded.pslverr _ _ disabled⟩

end Attached

def readBack (cycle : Nat) : ObiReq :=
  if cycle < 2 then .write 0x30208 0b1111 5 else if cycle < 4 then .read 0x30208 else .idle

def readBackRun : Nat → Input :=
  attachedRun ApbMtimer.circuit ApbMtimer.Output.toApbOut readBack

theorem readBack_held : Held (obiBeat readBackRun) := by
  intro cycle valid refused
  by_cases early : cycle < 4
  · interval_cases cycle <;> first | decide | exact absurd refused (by decide)
  · have quiet : (obiBeat readBackRun cycle).valid = false := by
      simp [obiBeat, readBackRun, attachedRun, attachedInput, readBack, early,
        show ¬cycle < 2 by omega, ObiReq.idle]
    exact absurd valid (by simp [quiet])

theorem answers_own_access_write : AnswersOwnAccess readBackRun 1 :=
  (answers_own_access_iff readBackRun readBack_held
    (guarded_drives ApbSelection.mtimer_guarded readBack readBack_held) 1 (by decide)).mpr
    (by decide)

/-- The timer returns 5 in the access cycle, the manager reads 0. -/
theorem readBack_lost :
    Held (obiBeat readBackRun) ∧ DrivesOnCompletion readBackRun ∧
      (obiBeat readBackRun 3).fires = true ∧ (readBackRun 3).apb.prdata = 5 ∧
      (circuit.outAt readBackRun 4).rvalid = true ∧ (circuit.outAt readBackRun 4).rdata = 0 ∧
      ¬AnswersOwnAccess readBackRun 3 := by
  have drives := guarded_drives ApbSelection.mtimer_guarded readBack readBack_held
  refine ⟨readBack_held, drives, by decide, by decide, by decide, by decide, ?_⟩
  exact fun answers => absurd answers.2.1 (by decide)

end Atalanta.ObiToApb
