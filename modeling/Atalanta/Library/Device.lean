import Atalanta.Library.BusProgram

/-! Devices that change on accesses only. A program run against such a device needs no clock; a
circuit that serves the device gives every one of its timings the same result. -/

namespace BusProgram

open Clocked

variable {σ τ ι ο α δ β γ : Type}

structure Device (τ α δ : Type) where
  read : τ → α → δ × τ
  write : τ → α → δ → τ

/-- What a program has done to an environment of which only the answers to its reads are known. -/
structure Recorded (α δ : Type) where
  reads : Nat
  written : α → Option δ

def recorder [DecidableEq α] (answers : Nat → δ) : Device (Recorded α δ) α δ where
  read state _ := (answers state.reads, { state with reads := state.reads + 1 })
  write state addr data :=
    { state with written := fun other => if other = addr then some data else state.written other }

def Recorded.none : Recorded α δ := ⟨0, fun _ => Option.none⟩

section Exec

variable (device : Device τ α δ)

def Program.exec : Program α δ β → τ → β × τ
  | .done value, state => (value, state)
  | .read addr rest, state => (rest (device.read state addr).1).exec (device.read state addr).2
  | .write addr data rest, state => rest.exec (device.write state addr data)

/-- The states before, between and after the accesses. -/
def Program.states : Program α δ β → τ → List τ
  | .done _, state => [state]
  | .read addr rest, state =>
    state :: (rest (device.read state addr).1).states (device.read state addr).2
  | .write addr data rest, state => state :: rest.states (device.write state addr data)

@[simp] theorem exec_pure (value : β) (state : τ) :
    (pure value : Program α δ β).exec device state = (value, state) := rfl

theorem exec_bind (program : Program α δ β) (continuation : β → Program α δ γ) (state : τ) :
    (program >>= continuation).exec device state =
      (continuation (program.exec device state).1).exec device (program.exec device state).2 := by
  change (program.bind continuation).exec device state = _
  induction program generalizing state with
  | done value => rfl
  | read addr rest ih => exact ih _ _
  | write addr data rest ih => exact ih _

theorem exec_bind_of {program : Program α δ β} {continuation : β → Program α δ γ} {value : β}
    {state middle : τ} (runs : program.exec device state = (value, middle)) :
    (program >>= continuation).exec device state = (continuation value).exec device middle := by
  rw [exec_bind, runs]

@[simp] theorem exec_readWord (addr : α) (state : τ) :
    (readWord addr : Program α δ δ).exec device state = device.read state addr := rfl

@[simp] theorem exec_writeWord (addr : α) (data : δ) (state : τ) :
    (writeWord addr data).exec device state = ((), device.write state addr data) := rfl

theorem exec_kept [DecidableEq α] (answers : Nat → δ) {program : Program α δ β} {addr : α}
    (others : program.OnlyWrites fun other _ => other ≠ addr) (state : Recorded α δ) :
    (program.exec (recorder answers) state).2.written addr = state.written addr := by
  induction program generalizing state with
  | done value => rfl
  | read other rest ih => exact ih _ (others _) _
  | write other data rest ih =>
      rw [Program.exec, ih others.2]
      exact if_neg others.1.symm

/-- The last of the writes to an address is the one that stays. -/
theorem exec_written [DecidableEq α] (answers : Nat → δ) {rest : Program α δ β} {addr : α}
    (others : rest.OnlyWrites fun other _ => other ≠ addr) (data : δ) (state : Recorded α δ) :
    ((Program.write addr data rest).exec (recorder answers) state).2.written addr = some data := by
  rw [Program.exec, exec_kept answers others]
  exact if_pos rfl

theorem exec_related (rel : τ → τ → Prop) {allowed : α → δ → Prop}
    (refl : ∀ state, rel state state)
    (trans : ∀ {early middle late}, rel early middle → rel middle late → rel early late)
    (reads : ∀ state addr, rel state (device.read state addr).2)
    (writes : ∀ state addr data, allowed addr data → rel state (device.write state addr data))
    {program : Program α δ β} (only : program.OnlyWrites allowed) (state : τ) :
    rel state (program.exec device state).2 := by
  induction program generalizing state with
  | done value => exact refl state
  | read addr rest ih => exact trans (reads state addr) (ih _ (only _) _)
  | write addr data rest ih => exact trans (writes state addr data only.1) (ih only.2 _)

variable {device}

theorem mem_states_start (program : Program α δ β) (state : τ) :
    state ∈ program.states device state := by
  cases program with
  | done value => exact List.mem_singleton.mpr rfl
  | read addr rest => exact List.mem_cons_self
  | write addr data rest => exact List.mem_cons_self

theorem mem_states_bind {program : Program α δ β} {continuation : β → Program α δ γ}
    {state other : τ} :
    other ∈ (program >>= continuation).states device state ↔
      other ∈ program.states device state ∨
        other ∈ (continuation (program.exec device state).1).states device
          (program.exec device state).2 := by
  change other ∈ (program.bind continuation).states device state ↔ _
  induction program generalizing state with
  | done value =>
      refine ⟨.inr, ?_⟩
      rintro (same | later)
      · exact List.mem_singleton.mp same ▸ mem_states_start _ _
      · exact later
  | read addr rest ih =>
      change other ∈ state :: _ ↔ other ∈ state :: _ ∨ _
      rw [List.mem_cons, List.mem_cons, ih, or_assoc]
      rfl
  | write addr data rest ih =>
      change other ∈ state :: _ ↔ other ∈ state :: _ ∨ _
      rw [List.mem_cons, List.mem_cons, ih, or_assoc]
      rfl

end Exec

/-- Seen through `view`, the circuit answers accesses to served addresses as the device does and
changes in no cycle of the others. -/
structure Serves (system : Circuit σ ι ο) (bus : Bus ι ο α δ) (others : ι → Prop)
    (device : Device τ α δ) (served : α → Prop) (view : σ → τ) : Prop where
  read : ∀ state step addr, served addr → bus.reads addr step →
    device.read (view state) addr =
      (bus.data (system.out state step), view (system.next state step))
  write : ∀ state step addr data, served addr → bus.writes addr data step →
    view (system.next state step) = device.write (view state) addr data
  kept : ∀ state step, others step → view (system.next state step) = view state

section Serves

variable {system : Circuit σ ι ο} {bus : Bus ι ο α δ} {others : ι → Prop}
  {device : Device τ α δ} {served : α → Prop} {view : σ → τ}

theorem Serves.passes (serves : Serves system bus others device served view) {start : σ}
    {input : Nat → ι} {first last : Nat} (passes : Passes others input first last) :
    view (system.runFrom start input last) = view (system.runFrom start input first) := by
  have steady : ∀ state step, others step → view state = view (system.runFrom start input first) →
      view (system.next state step) = view (system.runFrom start input first) :=
    fun state step other same => (serves.kept state step other).trans same
  exact passes.keeps steady rfl last passes.1 (Nat.le_refl last)

theorem Serves.waits (serves : Serves system bus others device served view) {always : τ → Prop}
    {before : τ} (good : always before) :
    Stable system others (fun state => always (view state)) (fun state => view state = before) where
  kept state step other same := (serves.kept state step other).trans same
  safe _ same := same ▸ good

-- between a read and the rest of the program: what was read, and what the read left
def Answered (device : Device τ α δ) (view : σ → τ) (before : τ) (addr : α) (data : δ)
    (state : σ) : Prop :=
  device.read before addr = (data, view state)

theorem Serves.triple (serves : Serves system bus others device served view)
    {program : Program α δ β} (uses : program.Uses served) (before : τ) :
    Triple system bus others (fun state => view state ∈ program.states device before)
      (fun state => view state = before) program
      (fun value state => program.exec device before = (value, view state)) := by
  suffices general : ∀ always : τ → Prop,
      (∀ other ∈ program.states device before, always other) →
      Triple system bus others (fun state => always (view state))
        (fun state => view state = before) program
        (fun value state => program.exec device before = (value, view state)) from
    general (· ∈ program.states device before) fun _ member => member
  intro always safe
  induction program generalizing before with
  | done value =>
      refine Triple.done (serves.waits (safe _ (mem_states_start _ _))) fun state same => ?_
      rw [same]
      rfl
  | read addr rest ih =>
      have steps : ∀ state step, bus.reads addr step → view state = before →
          Answered device view before addr (bus.data (system.out state step))
            (system.next state step) :=
        fun state step reads same => same ▸ serves.read state step addr uses.1 reads
      refine Triple.read (serves.waits (safe _ (mem_states_start _ _))) steps fun data => ?_
      intro start input first accesses last value performs holds
      have answer := ih (device.read before addr).1 (uses.2 _) (device.read before addr).2
        fun other member => safe other (List.mem_cons_of_mem _ member)
      change device.read before addr = _ at holds
      rw [holds] at answer
      have result := answer start input first accesses last value performs rfl
      rw [Program.exec, holds]
      exact result
  | write addr data rest ih =>
      refine Triple.write (serves.waits (safe _ (mem_states_start _ _))) ?_
        (ih uses.2 (device.write before addr data) fun other member =>
          safe other (List.mem_cons_of_mem _ member))
      intro state step writes same
      exact same ▸ serves.write state step addr data uses.1 writes

/-- Whatever the timing, the program returns and leaves behind what the device gives, and only
states between its accesses are seen meanwhile. -/
theorem Serves.performs (serves : Serves system bus others device served view)
    {program : Program α δ β} (uses : program.Uses served) {start : σ} {input : Nat → ι}
    {first last : Nat} {accesses : List Nat} {value : β}
    (performs : Performs system bus others start input program first accesses last value) :
    program.exec device (view (system.runFrom start input first)) =
        (value, view (system.runFrom start input last)) ∧
      ∀ cycle, first ≤ cycle → cycle ≤ last → view (system.runFrom start input cycle) ∈
        program.states device (view (system.runFrom start input first)) := by
  obtain ⟨seen, ends⟩ := serves.triple uses _ start input first accesses last value performs rfl
  exact ⟨ends, seen⟩

/-- Every state between two accesses is seen in some cycle. -/
theorem Serves.visits (serves : Serves system bus others device served view)
    {program : Program α δ β} (uses : program.Uses served) {start : σ} {input : Nat → ι}
    {first last : Nat} {accesses : List Nat} {value : β}
    (performs : Performs system bus others start input program first accesses last value) :
    ∀ state ∈ program.states device (view (system.runFrom start input first)),
      ∃ cycle, first ≤ cycle ∧ cycle ≤ last ∧ view (system.runFrom start input cycle) = state := by
  induction performs with
  | done value cycle =>
      intro state member
      exact ⟨cycle, Nat.le_refl cycle, Nat.le_refl cycle, (List.mem_singleton.mp member).symm⟩
  | @wait program cycle last _ _ other _ ih =>
      intro state member
      have kept := serves.kept (system.runFrom start input cycle) _ other
      rw [← kept, ← system.runFrom_succ] at member
      obtain ⟨later, after, before, same⟩ := ih uses state member
      exact ⟨later, by omega, before, same⟩
  | @read addr rest cycle last _ _ reads continues ih =>
      intro state member
      have order := continues.order
      rcases List.mem_cons.mp member with rfl | later
      · exact ⟨cycle, Nat.le_refl cycle, by omega, rfl⟩
      · rw [serves.read _ _ addr uses.1 reads] at later
        obtain ⟨middle, after, before, same⟩ := ih (uses.2 _) state later
        exact ⟨middle, by omega, before, same⟩
  | @write addr data rest cycle last _ _ writes continues ih =>
      intro state member
      have order := continues.order
      rcases List.mem_cons.mp member with rfl | later
      · exact ⟨cycle, Nat.le_refl cycle, by omega, rfl⟩
      · rw [← serves.write _ _ addr data uses.1 writes, ← system.runFrom_succ] at later
        obtain ⟨middle, after, before, same⟩ := ih uses.2 state later
        exact ⟨middle, by omega, before, same⟩

end Serves

/-! Tasks: programs that may give up -/

abbrev Task (α δ : Type) := OptionT (Program α δ)

namespace Task

def exec (device : Device τ α δ) (task : Task α δ β) (state : τ) : Option β × τ :=
  task.run.exec device state

def OnlyWrites (allowed : α → δ → Prop) (task : Task α δ β) : Prop := task.run.OnlyWrites allowed

theorem exec_bind_of (device : Device τ α δ) {task : Task α δ β} {continuation : β → Task α δ γ}
    {value : β} {state middle : τ} (runs : task.exec device state = (some value, middle)) :
    Task.exec device (task >>= continuation) state = (continuation value).exec device middle :=
  BusProgram.exec_bind_of device runs

theorem exec_lift (device : Device τ α δ) (program : Program α δ β) (state : τ) :
    Task.exec device (OptionT.lift program) state =
      (some (program.exec device state).1, (program.exec device state).2) :=
  BusProgram.exec_bind device program _ state

theorem exec_lift_bind (device : Device τ α δ) (program : Program α δ β)
    (continuation : β → Task α δ γ) (state : τ) :
    Task.exec device (OptionT.lift program >>= continuation) state =
      (continuation (program.exec device state).1).exec device (program.exec device state).2 :=
  exec_bind_of device (exec_lift device program state)

theorem OnlyWrites.bind {allowed : α → δ → Prop} {task : Task α δ β}
    {continuation : β → Task α δ γ} (only : task.OnlyWrites allowed)
    (continues : ∀ value, (continuation value).OnlyWrites allowed) :
    (task >>= continuation).OnlyWrites allowed := by
  refine Program.OnlyWrites.bind only fun result => ?_
  cases result with
  | none => exact trivial
  | some value => exact continues value

theorem OnlyWrites.lift {allowed : α → δ → Prop} {program : Program α δ β}
    (only : program.OnlyWrites allowed) :
    (OptionT.lift program : Task α δ β).OnlyWrites allowed :=
  Program.OnlyWrites.bind only fun _ => trivial

end Task

end BusProgram
