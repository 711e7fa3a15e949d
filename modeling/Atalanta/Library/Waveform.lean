/-! A line over simulated time: a driver that sets it and lets time pass, the levels that another
process may see of it, and the falling edges that an observer of the finished line waits for. -/

namespace Waveform

structure Line where
  now : Nat
  wave : Nat → Bool

def Line.drive (line : Line) (level : Bool) : Line :=
  { line with wave := fun time => if line.now ≤ time then level else line.wave time }

def Line.delay (line : Line) (duration : Nat) : Line := { line with now := line.now + duration }

@[simp] theorem Line.drive_now (line : Line) (level : Bool) : (line.drive level).now = line.now :=
  rfl

@[simp] theorem Line.delay_now (line : Line) (duration : Nat) :
    (line.delay duration).now = line.now + duration := rfl

@[simp] theorem Line.delay_wave (line : Line) (duration : Nat) :
    (line.delay duration).wave = line.wave := rfl

theorem Line.drive_wave (line : Line) (level : Bool) (time : Nat) :
    (line.drive level).wave time = if line.now ≤ time then level else line.wave time := rfl

/-- The order of two processes in one instant is open: there the level before it may still be
seen. -/
def Sees (wave seen : Nat → Bool) : Prop :=
  ∀ time, seen time = wave time ∨ seen time = wave (time - 1)

theorem Sees.now (wave : Nat → Bool) : Sees wave wave := fun _ => .inl rfl

theorem Sees.before (wave : Nat → Bool) : Sees wave fun time => wave (time - 1) := fun _ => .inr rfl

theorem Sees.steady {wave seen : Nat → Bool} (sees : Sees wave seen) {time : Nat} {level : Bool}
    (now : wave time = level) (before : wave (time - 1) = level) : seen time = level := by
  rcases sees time with same | same
  · exact same.trans now
  · exact same.trans before

def Falls (wave : Nat → Bool) (time : Nat) : Prop := wave (time - 1) = true ∧ wave time = false

instance (wave : Nat → Bool) (time : Nat) : Decidable (Falls wave time) :=
  inferInstanceAs (Decidable (_ ∧ _))

theorem not_falls_of_high {wave : Nat → Bool} {time : Nat} (high : wave time = true) :
    ¬Falls wave time := fun fell => Bool.noConfusion (high.symm.trans fell.2)

def negedge (wave : Nat → Bool) (horizon time : Nat) : Option Nat :=
  (List.range' (time + 1) (horizon - time)).find? fun later => decide (Falls wave later)

variable {wave : Nat → Bool} {horizon time start : Nat}

theorem negedge_eq_some (after : time < start) (soon : start ≤ horizon) (falls : Falls wave start)
    (quiet : ∀ other, time < other → other < start → ¬Falls wave other) :
    negedge wave horizon time = some start := by
  have split : List.range' (time + 1) (horizon - time) =
      List.range' (time + 1) (start - time - 1) ++
        start :: List.range' (start + 1) (horizon - start) := by
    rw [show horizon - time = (start - time - 1) + ((horizon - start) + 1) by omega,
      ← List.range'_append_1, show time + 1 + (start - time - 1) = start by omega,
      List.range'_succ]
  have before : (List.range' (time + 1) (start - time - 1)).find?
      (fun later => decide (Falls wave later)) = none := by
    rw [List.find?_eq_none]
    intro other member
    rw [List.mem_range'_1] at member
    exact fun fell => quiet other (by omega) (by omega) (of_decide_eq_true fell)
  rw [negedge, split, List.find?_append, before, Option.none_or]
  exact List.find?_cons_of_pos (decide_eq_true falls)

theorem negedge_eq_none (quiet : ∀ other, time < other → other ≤ horizon → ¬Falls wave other) :
    negedge wave horizon time = none := by
  rw [negedge, List.find?_eq_none]
  intro other member
  rw [List.mem_range'_1] at member
  exact fun fell => quiet other (by omega) (by omega) (of_decide_eq_true fell)

end Waveform
