import Mathlib.Algebra.Ring.Nat

/-! What a program does in order, up to the point where it stops early, if it does. -/

structure Trace (ε σ : Type) where
  events : List ε
  stop : Option σ
deriving DecidableEq, Repr

namespace Trace

variable {ε σ : Type}

def done : Trace ε σ := ⟨[], none⟩

def stopWith (reason : σ) : Trace ε σ := ⟨[], some reason⟩

/-- The second part is reached only if the first one did not stop. -/
def andThen (first second : Trace ε σ) : Trace ε σ :=
  match first.stop with
  | none => ⟨first.events ++ second.events, second.stop⟩
  | some _ => first

def each : Nat → (Nat → Trace ε σ) → Trace ε σ
  | 0, _ => done
  | count + 1, body => (each count body).andThen (body count)

structure Holds (admits : ε → Prop) (allows : σ → Prop) (trace : Trace ε σ) : Prop where
  events : ∀ event ∈ trace.events, admits event
  stop : ∀ reason, trace.stop = some reason → allows reason

variable {admits : ε → Prop} {allows : σ → Prop} {first second : Trace ε σ}

@[simp] theorem stop_done : (done : Trace ε σ).stop = none := rfl

@[simp] theorem stop_stopWith (reason : σ) :
    (stopWith reason : Trace ε σ).stop = some reason := rfl

@[simp] theorem holds_done : Holds admits allows (done : Trace ε σ) :=
  ⟨fun event inside => (List.not_mem_nil inside).elim, fun reason stops => by cases stops⟩

@[simp] theorem holds_stopWith {reason : σ} :
    Holds admits allows (stopWith reason : Trace ε σ) ↔ allows reason :=
  ⟨fun holds => holds.stop reason rfl,
    fun allowed => ⟨fun _ inside => (List.not_mem_nil inside).elim,
      fun _ stops => Option.some.inj stops ▸ allowed⟩⟩

theorem stop_andThen : (first.andThen second).stop = first.stop.or second.stop := by
  unfold andThen
  cases stops : first.stop with
  | none => rfl
  | some reason => simp [stops]

theorem holds_andThen : Holds admits allows (first.andThen second) ↔
    Holds admits allows first ∧ (first.stop = none → Holds admits allows second) := by
  unfold andThen
  cases stops : first.stop with
  | some reason => simp
  | none =>
      simp only [forall_const]
      constructor
      · intro holds
        exact ⟨⟨fun event inside => holds.events event (List.mem_append_left _ inside),
          fun reason other => by rw [stops] at other; cases other⟩,
          fun event inside => holds.events event (List.mem_append_right _ inside), holds.stop⟩
      · rintro ⟨before, after⟩
        refine ⟨fun event inside => ?_, after.stop⟩
        rcases List.mem_append.mp inside with early | late
        · exact before.events event early
        · exact after.events event late

section Loop

variable {body : Nat → Trace ε σ} {passes : Nat → Prop}

/-- A round that does only what is admitted stops exactly when it fails its check. Then the loop
does only what is admitted if each round does to which the checks before it let the loop come. -/
theorem holds_each {count : Nat}
    (checked : ∀ i < count, Holds admits allows (body i) → ((body i).stop = none ↔ passes i)) :
    (Holds admits allows (each count body) ↔
      ∀ i < count, (∀ j < i, passes j) → Holds admits allows (body i)) ∧
    (Holds admits allows (each count body) →
      ((each count body).stop = none ↔ ∀ i < count, passes i)) := by
  induction count with
  | zero => simp [each]
  | succ count ih =>
      obtain ⟨holds, stops⟩ := ih fun i below => checked i (by omega)
      have split : Holds admits allows (each (count + 1) body) ↔
          Holds admits allows (each count body) ∧
            ((∀ j < count, passes j) → Holds admits allows (body count)) := by
        rw [each, holds_andThen]
        exact and_congr_right fun before => by rw [stops before]
      constructor
      · rw [split, holds, Nat.forall_lt_succ_right]
      · intro both
        obtain ⟨before, last⟩ := split.mp both
        rw [each, stop_andThen, Option.or_eq_none_iff, stops before, Nat.forall_lt_succ_right]
        exact and_congr_right fun passed => checked count (by omega) (last passed)

theorem stop_each {count : Nat} :
    (each count body).stop = none ↔ ∀ i < count, (body i).stop = none := by
  induction count with
  | zero => simp [each]
  | succ count ih =>
      rw [each, stop_andThen, Option.or_eq_none_iff, ih, Nat.forall_lt_succ_right]

theorem holds_first {count : Nat} (positive : 0 < count)
    (holds : Holds admits allows (each count body)) : Holds admits allows (body 0) := by
  induction count with
  | zero => omega
  | succ count ih =>
      rw [each, holds_andThen] at holds
      rcases Nat.eq_zero_or_pos count with rfl | more
      · exact holds.2 rfl
      · exact ih more holds.1

end Loop

end Trace
