import Atalanta.Library.Device

/-! What a circuit emits to the outside while a program runs on it, in the order of the cycles. The
transcript is kept beside the state of a circuit or of a device, where neither can read it. -/

namespace Clocked

variable {σ ι ο ε : Type}

section Logged

variable (circuit : Circuit σ ι ο) (emits : σ → ι → Option ε)

def Circuit.logged : Circuit (σ × List ε) ι ο where
  reset := (circuit.reset, [])
  next state input := (circuit.next state.1 input, state.2 ++ (emits state.1 input).toList)
  out state input := circuit.out state.1 input

/-- What the run emits from one cycle on and before another. -/
def Circuit.transcript (start : σ) (input : Nat → ι) (first last : Nat) : List ε :=
  (List.range' first (last - first)).flatMap fun cycle =>
    (emits (circuit.runFrom start input cycle) (input cycle)).toList

theorem Circuit.transcript_append (start : σ) (input : Nat → ι) {first middle last : Nat}
    (early : first ≤ middle) (late : middle ≤ last) :
    circuit.transcript emits start input first last =
      circuit.transcript emits start input first middle ++
        circuit.transcript emits start input middle last := by
  have split : List.range' first (last - first) =
      List.range' first (middle - first) ++ List.range' middle (last - middle) := by
    rw [show last - first = (middle - first) + (last - middle) by omega, ← List.range'_append_1,
      show first + (middle - first) = middle by omega]
  rw [transcript, split, List.flatMap_append]
  rfl

theorem Circuit.logged_runFrom (start : σ) (input : Nat → ι) (cycle : Nat) :
    (circuit.logged emits).runFrom (start, []) input cycle =
      (circuit.runFrom start input cycle, circuit.transcript emits start input 0 cycle) := by
  induction cycle with
  | zero => rfl
  | succ cycle ih =>
      have one : circuit.transcript emits start input cycle (cycle + 1) =
          (emits (circuit.runFrom start input cycle) (input cycle)).toList := by
        rw [transcript, Nat.add_sub_cancel_left]
        exact List.append_nil _
      rw [Circuit.runFrom_succ, ih,
        circuit.transcript_append emits start input (Nat.zero_le cycle) (Nat.le_succ cycle), one]
      rfl

end Logged

end Clocked

namespace BusProgram

open Clocked

variable {σ τ ι ο ε α δ β γ : Type}

theorem Performs.logged {system : Circuit σ ι ο} {bus : Bus ι ο α δ} {others : ι → Prop}
    (emits : σ → ι → Option ε) {start : σ} {input : Nat → ι} {program : Program α δ β}
    {first last : Nat} {accesses : List Nat} {value : β}
    (performs : Performs system bus others start input program first accesses last value) :
    Performs (system.logged emits) bus others (start, []) input program first accesses last
      value := by
  have same (cycle : Nat) : (system.logged emits).outFrom (start, []) input cycle =
      system.outFrom start input cycle := by
    rw [Circuit.outFrom, system.logged_runFrom emits]
    rfl
  induction performs with
  | done value cycle => exact .done value cycle
  | wait other _ ih => exact .wait other ih
  | @read _ rest cycle _ _ _ reads _ ih =>
      refine .read reads ?_
      rw [same cycle]
      exact ih
  | write writes _ ih => exact .write writes ih

section Logged

variable (device : Device τ α δ) (emits : τ → α → δ → Option ε)

def Device.logged : Device (τ × List ε) α δ where
  read state addr :=
    let answer := device.read state.1 addr
    (answer.1, (answer.2, state.2))
  write state addr data :=
    (device.write state.1 addr data, state.2 ++ (emits state.1 addr data).toList)

def Program.emitted : Program α δ β → τ → List ε
  | .done _, _ => []
  | .read addr rest, state =>
    (rest (device.read state addr).1).emitted (device.read state addr).2
  | .write addr data rest, state =>
    (emits state addr data).toList ++ rest.emitted (device.write state addr data)

theorem exec_logged (program : Program α δ β) (state : τ) (log : List ε) :
    program.exec (device.logged emits) (state, log) =
      ((program.exec device state).1,
        ((program.exec device state).2, log ++ program.emitted device emits state)) := by
  induction program generalizing state log with
  | done value => exact congrArg (fun log => (value, (state, log))) (List.append_nil log).symm
  | read addr rest ih => exact ih _ _ _
  | write addr data rest ih =>
      rw [Program.emitted, ← List.append_assoc]
      exact ih _ _

@[simp] theorem emitted_pure (value : β) (state : τ) :
    (pure value : Program α δ β).emitted device emits state = [] := rfl

@[simp] theorem emitted_readWord (addr : α) (state : τ) :
    (readWord addr : Program α δ δ).emitted device emits state = [] := rfl

theorem emitted_writeWord (addr : α) (data : δ) (state : τ) :
    (writeWord addr data).emitted device emits state = (emits state addr data).toList :=
  List.append_nil _

theorem emitted_bind (program : Program α δ β) (continuation : β → Program α δ γ) (state : τ) :
    (program >>= continuation).emitted device emits state =
      program.emitted device emits state ++
        (continuation (program.exec device state).1).emitted device emits
          (program.exec device state).2 := by
  change (program.bind continuation).emitted device emits state = _
  induction program generalizing state with
  | done value => rfl
  | read addr rest ih => exact ih _ _
  | write addr data rest ih =>
      rw [Program.emitted, List.append_assoc]
      exact congrArg _ (ih _)

theorem emitted_bind_of {program : Program α δ β} {continuation : β → Program α δ γ} {value : β}
    {state middle : τ} {text : List ε} (runs : program.exec device state = (value, middle))
    (emitted : program.emitted device emits state = text) :
    (program >>= continuation).emitted device emits state =
      text ++ (continuation value).emitted device emits middle := by
  rw [emitted_bind, runs, emitted]

variable {device emits} in
theorem emitted_silent {program : Program α δ β}
    (only : program.OnlyWrites fun addr data => ∀ state, emits state addr data = none)
    (state : τ) : program.emitted device emits state = [] := by
  induction program generalizing state with
  | done value => rfl
  | read addr rest ih => exact ih _ (only _) _
  | write addr data rest ih =>
      rw [Program.emitted, only.1, ih only.2]
      rfl

end Logged

section Serves

variable {system : Circuit σ ι ο} {bus : Bus ι ο α δ} {others : ι → Prop} {device : Device τ α δ}
  {served : α → Prop} {view : σ → τ} {emits : σ → ι → Option ε} {emitted : τ → α → δ → Option ε}

/-- What the circuit emits in the cycle of an access is what the device says. -/
structure Emits (bus : Bus ι ο α δ) (others : ι → Prop) (served : α → Prop) (view : σ → τ)
    (emits : σ → ι → Option ε) (emitted : τ → α → δ → Option ε) : Prop where
  read : ∀ state step addr, served addr → bus.reads addr step → emits state step = none
  write : ∀ state step addr data, served addr → bus.writes addr data step →
    emits state step = emitted (view state) addr data
  silent : ∀ state step, others step → emits state step = none

theorem Serves.logged (serves : Serves system bus others device served view)
    (agrees : Emits bus others served view emits emitted) :
    Serves (system.logged emits) bus others (device.logged emitted) served
      (fun state => (view state.1, state.2)) where
  read state step addr port reads := by
    have answer := serves.read state.1 step addr port reads
    have data : (device.read (view state.1) addr).1 = bus.data (system.out state.1 step) := by
      rw [answer]
    have next : (device.read (view state.1) addr).2 = view (system.next state.1 step) := by
      rw [answer]
    have nothing := agrees.read state.1 step addr port reads
    refine Prod.ext data (Prod.ext next ?_)
    change state.2 = state.2 ++ (emits state.1 step).toList
    rw [nothing]
    exact (List.append_nil _).symm
  write state step addr data port writes := by
    refine Prod.ext (serves.write state.1 step addr data port writes) ?_
    change state.2 ++ (emits state.1 step).toList = state.2 ++ _
    rw [agrees.write state.1 step addr data port writes]
  kept state step other := by
    refine Prod.ext (serves.kept state.1 step other) ?_
    change state.2 ++ (emits state.1 step).toList = state.2
    rw [agrees.silent state.1 step other]
    exact List.append_nil _

/-- With any timing, the circuit emits between the two ends of a program what the device emits,
and ends where the device does. -/
theorem Serves.transcript (serves : Serves system bus others device served view)
    (agrees : Emits bus others served view emits emitted) {program : Program α δ β}
    (uses : program.Uses served) {start : σ} {input : Nat → ι} {first last : Nat}
    {accesses : List Nat} {value : β}
    (performs : Performs system bus others start input program first accesses last value) :
    program.exec device (view (system.runFrom start input first)) =
        (value, view (system.runFrom start input last)) ∧
      system.transcript emits start input first last =
        program.emitted device emitted (view (system.runFrom start input first)) := by
  have ends := ((serves.logged agrees).performs uses (performs.logged emits)).1
  rw [system.logged_runFrom emits, system.logged_runFrom emits, exec_logged,
    system.transcript_append emits start input (Nat.zero_le first) performs.order] at ends
  simp only [Prod.mk.injEq] at ends
  obtain ⟨returned, reached, text⟩ := ends
  exact ⟨Prod.ext returned reached, (List.append_cancel_left text).symm⟩

/-- While only others have the bus nothing is emitted. -/
theorem Passes.transcript (agrees : Emits bus others served view emits emitted) {start : σ}
    {input : Nat → ι} {first last : Nat} (passes : Passes others input first last) :
    system.transcript emits start input first last = [] := by
  refine List.flatMap_eq_nil_iff.mpr fun cycle member => ?_
  rw [List.mem_range'_1] at member
  have order := passes.1
  rw [agrees.silent _ _ (passes.2 cycle (by omega) (by omega))]
  rfl

end Serves

end BusProgram
