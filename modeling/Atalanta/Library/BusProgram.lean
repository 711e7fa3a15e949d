import Atalanta.Library.Clocked

/-! Drivers as programs of bus accesses, in which an access may depend on the data read before
it, and what they do to a circuit while other cycles pass between their accesses. -/

namespace BusProgram

open Clocked

variable {σ ι ο α δ β γ : Type}

inductive Program (α δ β : Type) : Type
  | done (value : β)
  | read (addr : α) (rest : δ → Program α δ β)
  | write (addr : α) (data : δ) (rest : Program α δ β)

def Program.bind (program : Program α δ β) (continuation : β → Program α δ γ) :
    Program α δ γ :=
  match program with
  | .done value => continuation value
  | .read addr rest => .read addr fun data => (rest data).bind continuation
  | .write addr data rest => .write addr data (rest.bind continuation)

instance : Monad (Program α δ) where
  pure := .done
  bind := .bind

def readWord (addr : α) : Program α δ δ := .read addr .done

def writeWord (addr : α) (data : δ) : Program α δ Unit := .write addr data (.done ())

def Program.Uses (served : α → Prop) : Program α δ β → Prop
  | .done _ => True
  | .read addr rest => served addr ∧ ∀ data, (rest data).Uses served
  | .write addr _ rest => served addr ∧ rest.Uses served

theorem Program.Uses.bind {served : α → Prop} {program : Program α δ β}
    {continuation : β → Program α δ γ} (uses : program.Uses served)
    (continues : ∀ value, (continuation value).Uses served) :
    (program.bind continuation).Uses served := by
  induction program with
  | done value => exact continues value
  | read addr rest ih => exact ⟨uses.1, fun data => ih data (uses.2 data)⟩
  | write addr data rest ih => exact ⟨uses.1, ih uses.2⟩

theorem Program.Uses.mono {served allowed : α → Prop} {program : Program α δ β}
    (uses : program.Uses served) (weaker : ∀ addr, served addr → allowed addr) :
    program.Uses allowed := by
  induction program with
  | done value => exact trivial
  | read addr rest ih => exact ⟨weaker addr uses.1, fun data => ih data (uses.2 data)⟩
  | write addr data rest ih => exact ⟨weaker addr uses.1, ih uses.2⟩

def Program.OnlyWrites (allowed : α → δ → Prop) : Program α δ β → Prop
  | .done _ => True
  | .read _ rest => ∀ data, (rest data).OnlyWrites allowed
  | .write addr data rest => allowed addr data ∧ rest.OnlyWrites allowed

theorem Program.OnlyWrites.bind {allowed : α → δ → Prop} {program : Program α δ β}
    {continuation : β → Program α δ γ} (only : program.OnlyWrites allowed)
    (continues : ∀ value, (continuation value).OnlyWrites allowed) :
    (program.bind continuation).OnlyWrites allowed := by
  induction program with
  | done value => exact continues value
  | read addr rest ih => exact fun data => ih data (only data)
  | write addr data rest ih => exact ⟨only.1, ih only.2⟩

/-- The program that sees the data of its reads through the function only. -/
def Program.through (seen : δ → δ) : Program α δ β → Program α δ β
  | .done value => .done value
  | .read addr rest => .read addr fun data => (rest (seen data)).through seen
  | .write addr data rest => .write addr data (rest.through seen)

/-- How an input cycle carries an access, and where the data of a read appear. -/
structure Bus (ι ο α δ : Type) where
  reads : α → ι → Prop
  writes : α → δ → ι → Prop
  data : ο → δ

section Runs

variable (system : Circuit σ ι ο) (bus : Bus ι ο α δ) (others : ι → Prop)
  (start : σ) (input : Nat → ι)

/-- The program runs from one cycle to another, with its accesses in the listed cycles and
cycles of the others in between, and returns a value. -/
inductive Performs : Program α δ β → Nat → List Nat → Nat → β → Prop
  | done (value : β) (cycle : Nat) : Performs (.done value) cycle [] cycle value
  | wait {program : Program α δ β} {cycle last : Nat} {accesses : List Nat} {value : β} :
      others (input cycle) → Performs program (cycle + 1) accesses last value →
      Performs program cycle accesses last value
  | read {addr : α} {rest : δ → Program α δ β} {cycle last : Nat} {accesses : List Nat}
      {value : β} : bus.reads addr (input cycle) →
      Performs (rest (bus.data (system.outFrom start input cycle))) (cycle + 1) accesses last
        value →
      Performs (.read addr rest) cycle (cycle :: accesses) last value
  | write {addr : α} {data : δ} {rest : Program α δ β} {cycle last : Nat} {accesses : List Nat}
      {value : β} : bus.writes addr data (input cycle) →
      Performs rest (cycle + 1) accesses last value →
      Performs (.write addr data rest) cycle (cycle :: accesses) last value

def Passes (first last : Nat) : Prop :=
  first ≤ last ∧ ∀ cycle, first ≤ cycle → cycle < last → others (input cycle)

variable {system bus others start input}

theorem Passes.refl (cycle : Nat) : Passes others input cycle cycle :=
  ⟨Nat.le_refl cycle, fun _ above below => absurd above (by omega)⟩

theorem Passes.before {cycle last : Nat} (other : others (input cycle))
    (passes : Passes others input (cycle + 1) last) : Passes others input cycle last := by
  refine ⟨by have := passes.1; omega, fun middle above below => ?_⟩
  by_cases same : middle = cycle
  · exact same ▸ other
  · exact passes.2 middle (by omega) below

theorem Passes.trans {first middle last : Nat} (before : Passes others input first middle)
    (after : Passes others input middle last) : Passes others input first last := by
  refine ⟨Nat.le_trans before.1 after.1, fun cycle above below => ?_⟩
  by_cases early : cycle < middle
  · exact before.2 cycle above early
  · exact after.2 cycle (by omega) below

theorem Passes.append {first middle last : Nat} (before : Passes others input first middle)
    (other : others (input middle)) (after : Passes others input (middle + 1) last) :
    Passes others input first last :=
  before.trans (after.before other)

theorem Passes.within {first early late last : Nat} (passes : Passes others input first last)
    (after : first ≤ early) (order : early ≤ late) (before : late ≤ last) :
    Passes others input early late :=
  ⟨order, fun cycle above below => passes.2 cycle (by omega) (by omega)⟩

theorem Passes.performs {program : Program α δ β} {value : β} {first middle last : Nat}
    {accesses : List Nat} (passes : Passes others input first middle)
    (performs : Performs system bus others start input program middle accesses last value) :
    Performs system bus others start input program first accesses last value := by
  obtain ⟨order, quiet⟩ := passes
  obtain ⟨waits, rfl⟩ := Nat.exists_eq_add_of_le order
  induction waits with
  | zero => exact performs
  | succ waits ih =>
      have waited := Performs.wait (quiet (first + waits) (by omega) (by omega)) performs
      exact ih waited (by omega) fun cycle above below => quiet cycle above (by omega)

theorem Passes.keeps {good : σ → Prop} {first last : Nat}
    (passes : Passes others input first last)
    (stable : ∀ state step, others step → good state → good (system.next state step))
    (atFirst : good (system.runFrom start input first)) :
    ∀ cycle, first ≤ cycle → cycle ≤ last → good (system.runFrom start input cycle) := by
  intro cycle above below
  induction cycle with
  | zero =>
      obtain rfl : first = 0 := by omega
      exact atFirst
  | succ cycle ih =>
      by_cases same : first = cycle + 1
      · exact same ▸ atFirst
      · rw [system.runFrom_succ]
        exact stable _ _ (passes.2 cycle (by omega) (by omega)) (ih (by omega) (by omega))

theorem Performs.order {program : Program α δ β} {value : β} {first last : Nat}
    {accesses : List Nat}
    (performs : Performs system bus others start input program first accesses last value) :
    first ≤ last := by
  induction performs with
  | done value cycle => exact Nat.le_refl cycle
  | wait _ _ ih => exact Nat.le_of_succ_le ih
  | read _ _ ih => exact Nat.le_of_succ_le ih
  | write _ _ ih => exact Nat.le_of_succ_le ih

theorem Performs.of_done {result value : β} {first last : Nat} {accesses : List Nat}
    (performs : Performs system bus others start input (.done result) first accesses last value) :
    accesses = [] ∧ value = result ∧ Passes others input first last := by
  generalize program : Program.done result = current at performs
  induction performs with
  | done value cycle =>
      cases program
      exact ⟨rfl, rfl, .refl cycle⟩
  | wait other _ ih =>
      obtain ⟨none, same, passes⟩ := ih program
      exact ⟨none, same, passes.before other⟩
  | read _ _ _ => cases program
  | write _ _ _ => cases program

theorem Performs.of_read {addr : α} {rest : δ → Program α δ β} {value : β} {first last : Nat}
    {accesses : List Nat}
    (performs : Performs system bus others start input (.read addr rest) first accesses last
      value) :
    ∃ cycle later, accesses = cycle :: later ∧ Passes others input first cycle ∧
      bus.reads addr (input cycle) ∧
      Performs system bus others start input (rest (bus.data (system.outFrom start input cycle)))
        (cycle + 1) later last value := by
  generalize program : Program.read addr rest = current at performs
  induction performs with
  | done _ _ => cases program
  | wait other _ ih =>
      obtain ⟨cycle, later, listed, passes, reads, continues⟩ := ih program
      exact ⟨cycle, later, listed, passes.before other, reads, continues⟩
  | read reads continues _ =>
      cases program
      exact ⟨_, _, rfl, .refl _, reads, continues⟩
  | write _ _ _ => cases program

theorem Performs.of_write {addr : α} {data : δ} {rest : Program α δ β} {value : β}
    {first last : Nat} {accesses : List Nat}
    (performs : Performs system bus others start input (.write addr data rest) first accesses
      last value) :
    ∃ cycle later, accesses = cycle :: later ∧ Passes others input first cycle ∧
      bus.writes addr data (input cycle) ∧
      Performs system bus others start input rest (cycle + 1) later last value := by
  generalize program : Program.write addr data rest = current at performs
  induction performs with
  | done _ _ => cases program
  | wait other _ ih =>
      obtain ⟨cycle, later, listed, passes, writes, continues⟩ := ih program
      exact ⟨cycle, later, listed, passes.before other, writes, continues⟩
  | read _ _ _ => cases program
  | write writes continues _ =>
      cases program
      exact ⟨_, _, rfl, .refl _, writes, continues⟩

theorem Performs.of_bind {program : Program α δ β} {continuation : β → Program α δ γ} {value : γ}
    {last : Nat} : ∀ {first : Nat} {accesses : List Nat},
    Performs system bus others start input (program.bind continuation) first accesses last
      value →
    ∃ middle result earlier later, accesses = earlier ++ later ∧
      Performs system bus others start input program first earlier middle result ∧
      Performs system bus others start input (continuation result) middle later last value := by
  induction program with
  | done result =>
      intro first accesses performs
      exact ⟨first, result, [], accesses, rfl, .done result first, performs⟩
  | read addr rest ih =>
      intro first accesses performs
      obtain ⟨cycle, later, rfl, passes, reads, continues⟩ := performs.of_read
      obtain ⟨middle, result, earlier, others, rfl, runs, continues⟩ := ih _ continues
      exact ⟨middle, result, cycle :: earlier, others, rfl,
        passes.performs (.read reads runs), continues⟩
  | write addr data rest ih =>
      intro first accesses performs
      obtain ⟨cycle, later, rfl, passes, writes, continues⟩ := performs.of_write
      obtain ⟨middle, result, earlier, others, rfl, runs, continues⟩ := ih continues
      exact ⟨middle, result, cycle :: earlier, others, rfl,
        passes.performs (.write writes runs), continues⟩

theorem Passes.mono {others' : ι → Prop} {first last : Nat}
    (passes : Passes others input first last) (weaker : ∀ step, others step → others' step) :
    Passes others' input first last :=
  ⟨passes.1, fun cycle above below => weaker _ (passes.2 cycle above below)⟩

theorem Performs.mono {others' : ι → Prop} {program : Program α δ β} {value : β}
    {first last : Nat} {accesses : List Nat}
    (performs : Performs system bus others start input program first accesses last value)
    (weaker : ∀ step, others step → others' step) :
    Performs system bus others' start input program first accesses last value := by
  induction performs with
  | done value cycle => exact .done value cycle
  | wait other _ ih => exact .wait (weaker _ other) ih
  | read reads _ ih => exact .read reads ih
  | write writes _ ih => exact .write writes ih

/-- The cycles of a run are those of the others and accesses of the program. -/
theorem Performs.passes {program : Program α δ β} {allowed : α → δ → Prop} {value : β}
    {first last : Nat} {accesses : List Nat} (only : program.OnlyWrites allowed)
    (performs : Performs system bus others start input program first accesses last value) :
    Passes (fun step => others step ∨ (∃ addr, bus.reads addr step) ∨
      ∃ addr data, allowed addr data ∧ bus.writes addr data step) input first last := by
  induction performs with
  | done value cycle => exact .refl cycle
  | wait other _ ih => exact (ih only).before (.inl other)
  | read reads _ ih => exact (ih (only _)).before (.inr (.inl ⟨_, reads⟩))
  | write writes _ ih => exact (ih only.2).before (.inr (.inr ⟨_, _, only.1, writes⟩))

/-- A program that uses one part of a system only runs on that part alone, where the part sees
its accesses through `view`. -/
theorem Performs.project {τ κ ο' : Type} {part : Circuit τ κ ο'} {partBus : Bus κ ο' α δ}
    {partOthers : κ → Prop} {partStart : τ} {view : ι → κ} {served : α → Prop}
    {program : Program α δ β} {value : β} {first last : Nat} {accesses : List Nat}
    (waits : ∀ step, others step → partOthers (view step))
    (reads : ∀ addr step, served addr → bus.reads addr step → partBus.reads addr (view step))
    (answers : ∀ cycle addr, served addr → bus.reads addr (input cycle) →
      bus.data (system.outFrom start input cycle) =
        partBus.data (part.outFrom partStart (fun cycle => view (input cycle)) cycle))
    (writes : ∀ addr data step, served addr → bus.writes addr data step →
      partBus.writes addr data (view step))
    (uses : program.Uses served)
    (performs : Performs system bus others start input program first accesses last value) :
    Performs part partBus partOthers partStart (fun cycle => view (input cycle)) program first
      accesses last value := by
  induction performs with
  | done value cycle => exact .done value cycle
  | wait other _ ih => exact .wait (waits _ other) (ih uses)
  | @read addr rest cycle _ _ _ reading _ ih =>
      refine .read (reads addr _ uses.1 reading) ?_
      rw [← answers cycle addr uses.1 reading]
      exact ih (uses.2 _)
  | write writing _ ih => exact .write (writes _ _ _ uses.1 writing) (ih uses.2)

end Runs

section Rules

variable (system : Circuit σ ι ο) (bus : Bus ι ο α δ) (others : ι → Prop) (always : σ → Prop)

/-- From states of `before`, the program keeps `always` in every cycle and ends in `after`. -/
def Triple (before : σ → Prop) (program : Program α δ β) (after : β → σ → Prop) : Prop :=
  ∀ start input first accesses last value,
    Performs system bus others start input program first accesses last value →
    before (system.runFrom start input first) →
    (∀ cycle, first ≤ cycle → cycle ≤ last → always (system.runFrom start input cycle)) ∧
      after value (system.runFrom start input last)

/-- An assertion that holds on while cycles of the others pass, and that implies `always`. -/
structure Stable (assertion : σ → Prop) : Prop where
  kept : ∀ state step, others step → assertion state → assertion (system.next state step)
  safe : ∀ state, assertion state → always state

variable {system bus others always} {before : σ → Prop}

theorem Triple.done {value : β} {after : β → σ → Prop} (stable : Stable system others always before)
    (ends : ∀ state, before state → after value state) :
    Triple system bus others always before (.done value) after := by
  intro start input first accesses last result performs holds
  obtain ⟨_, rfl, passes⟩ := performs.of_done
  have throughout := passes.keeps stable.kept holds
  exact ⟨fun cycle above below => stable.safe _ (throughout cycle above below),
    ends _ (throughout last passes.1 (Nat.le_refl last))⟩

theorem Triple.step {program : Program α δ β} {middle : σ → Prop} {after : β → σ → Prop}
    (stable : Stable system others always before) (start : σ) (input : Nat → ι)
    {first cycle last : Nat} {accesses : List Nat} {value : β}
    (passes : Passes others input first cycle) (holds : before (system.runFrom start input first))
    (steps : before (system.runFrom start input cycle) →
      middle (system.runFrom start input (cycle + 1)))
    (continues : Performs system bus others start input program (cycle + 1) accesses last value)
    (rest : Triple system bus others always middle program after) :
    (∀ cycle, first ≤ cycle → cycle ≤ last → always (system.runFrom start input cycle)) ∧
      after value (system.runFrom start input last) := by
  have throughout := passes.keeps stable.kept holds
  have reached := throughout cycle passes.1 (Nat.le_refl cycle)
  obtain ⟨safe, ends⟩ := rest start input _ _ _ _ continues (steps reached)
  refine ⟨fun other above below => ?_, ends⟩
  by_cases waiting : other ≤ cycle
  · exact stable.safe _ (throughout other above waiting)
  · exact safe other (by omega) below

theorem Triple.read {addr : α} {rest : δ → Program α δ β} {middle : δ → σ → Prop}
    {after : β → σ → Prop} (stable : Stable system others always before)
    (steps : ∀ state step, bus.reads addr step → before state →
      middle (bus.data (system.out state step)) (system.next state step))
    (continues : ∀ data, Triple system bus others always (middle data) (rest data) after) :
    Triple system bus others always before (.read addr rest) after := by
  intro start input first accesses last value performs holds
  obtain ⟨cycle, later, _, passes, reads, performs⟩ := performs.of_read
  exact Triple.step stable start input passes holds (steps _ _ reads) performs (continues _)

theorem Triple.write {addr : α} {data : δ} {rest : Program α δ β} {middle : σ → Prop}
    {after : β → σ → Prop} (stable : Stable system others always before)
    (steps : ∀ state step, bus.writes addr data step → before state →
      middle (system.next state step))
    (continues : Triple system bus others always middle rest after) :
    Triple system bus others always before (.write addr data rest) after := by
  intro start input first accesses last value performs holds
  obtain ⟨cycle, later, _, passes, writes, performs⟩ := performs.of_write
  exact Triple.step stable start input passes holds (steps _ _ writes) performs continues

theorem Triple.bind {program : Program α δ β} {continuation : β → Program α δ γ}
    {middle : β → σ → Prop} {after : γ → σ → Prop}
    (runs : Triple system bus others always before program middle)
    (continues : ∀ value,
      Triple system bus others always (middle value) (continuation value) after) :
    Triple system bus others always before (program.bind continuation) after := by
  intro start input first accesses last value performs holds
  obtain ⟨cycle, result, _, _, _, early, late⟩ := performs.of_bind
  obtain ⟨safe, reached⟩ := runs start input _ _ _ _ early holds
  obtain ⟨stillSafe, ends⟩ := continues result start input _ _ _ _ late reached
  refine ⟨fun other above below => ?_, ends⟩
  by_cases soon : other ≤ cycle
  · exact safe other above soon
  · exact stillSafe other (by omega) below

end Rules

end BusProgram
