import Mathlib.Algebra.Ring.Nat

/-! Runs of a system over events that it may refuse: what it takes for another system to be
refined over them, and for a property of single steps to decide a property of runs. -/

namespace Refinement

variable {ω σ τ β : Type}

/-- The state after the operations and their answers, if none of them is refused. -/
def runs (step : ω → σ → Option (σ × β)) : List ω → σ → Option (σ × List β)
  | [], state => some (state, [])
  | op :: ops, state => (step op state).bind fun (next, answer) =>
      (runs step ops next).map fun (last, answers) => (last, answer :: answers)

def Same (related : σ → τ → Prop) (code : σ × β) (spec : τ × β) : Prop :=
  related code.1 spec.1 ∧ code.2 = spec.2

theorem runs_refine {related : σ → τ → Prop} {step : ω → σ → Option (σ × β)}
    {specStep : ω → τ → Option (τ × β)}
    (simulates : ∀ op state spec, related state spec →
      Option.Rel (Same related) (step op state) (specStep op spec)) (ops : List ω) :
    ∀ state spec, related state spec →
      Option.Rel (Same related) (runs step ops state) (runs specStep ops spec) := by
  induction ops with
  | nil => exact fun state spec start => .some ⟨start, rfl⟩
  | cons op ops ih =>
      intro state spec start
      have first := simulates op state spec start
      simp only [runs]
      generalize step op state = code at first
      generalize specStep op spec = abstracted at first
      cases first with
      | none => exact .none
      | @some code abstracted same =>
          obtain ⟨related, answer⟩ := same
          have rest := ih code.1 abstracted.1 related
          simp only [Option.bind_some]
          generalize runs step ops code.1 = codeRest at rest
          generalize runs specStep ops abstracted.1 = specRest at rest
          cases rest with
          | none => exact .none
          | some tail => exact .some ⟨tail.1, congrArg₂ List.cons answer tail.2⟩

theorem runs_invariant {holds : σ → List β → Prop} {step : ω → σ → Option (σ × β)}
    (keeps : ∀ op state next answer before, holds state before →
      step op state = some (next, answer) → holds next (before ++ [answer])) (ops : List ω) :
    ∀ state before, holds state before → ∀ last answers,
      runs step ops state = some (last, answers) → holds last (before ++ answers) := by
  induction ops with
  | nil =>
      intro state before start last answers run
      obtain ⟨rfl, rfl⟩ := Prod.mk.inj (Option.some.inj run)
      rwa [List.append_nil]
  | cons op ops ih =>
      intro state before start last answers run
      obtain ⟨⟨next, answer⟩, first, run⟩ := Option.bind_eq_some_iff.mp run
      obtain ⟨⟨final, later⟩, rest, same⟩ := Option.map_eq_some_iff.mp run
      obtain ⟨rfl, rfl⟩ := Prod.mk.inj same
      have kept := ih next _ (keeps op state next answer before start first) final later rest
      rwa [List.append_assoc] at kept

end Refinement

namespace Runs

variable {ω σ : Type} (step : ω → σ → Option σ)

def run : List ω → σ → Option σ
  | [], state => some state
  | event :: events, state => (step event state).bind (run events)

/-- Every step of the run is taken from a state that admits it. -/
def Along (admits : ω → σ → Prop) : List ω → σ → Prop
  | [], _ => True
  | event :: events, state => ∀ next, step event state = some next →
      admits event state ∧ Along admits events next

/-- Every state that the run reaches has the property. -/
def Throughout (holds : σ → Prop) : List ω → σ → Prop
  | [], state => holds state
  | event :: events, state => holds state ∧
      ∀ next, step event state = some next → Throughout holds events next

variable {step} {admits : ω → σ → Prop}

/-- A step that is admitted loses nothing and every other one does: then a run has lost nothing
exactly when each of its steps was admitted. -/
theorem run_losses {lost : Nat → σ → Prop}
    (steps : ∀ count event state, lost count state → ∃ next, step event state = some next ∧
      ((admits event state ∧ lost count next) ∨
        (¬admits event state ∧ ∃ more, 0 < more ∧ lost (count + more) next)))
    (events : List ω) : ∀ count state, lost count state →
      ∃ last more, run step events state = some last ∧ lost (count + more) last ∧
        (more = 0 ↔ Along step admits events state) := by
  induction events with
  | nil => exact fun count state start => ⟨state, 0, rfl, start, iff_of_true rfl trivial⟩
  | cons event events ih =>
      intro count state start
      obtain ⟨next, stepped, outcome⟩ := steps count event state start
      have along : Along step admits (event :: events) state ↔
          admits event state ∧ Along step admits events next := by
        simp only [Along, stepped, Option.some.injEq, forall_eq']
      rw [along, run, stepped, Option.bind_some]
      rcases outcome with ⟨admitted, kept⟩ | ⟨refused, first, positive, lossy⟩
      · obtain ⟨last, more, ran, held, exact_⟩ := ih count next kept
        exact ⟨last, more, ran, held, exact_.trans (and_iff_right admitted).symm⟩
      · obtain ⟨last, more, ran, held, _⟩ := ih (count + first) next lossy
        refine ⟨last, first + more, ran, Nat.add_assoc .. ▸ held, ?_⟩
        exact iff_of_false (by omega) fun both => refused both.1

theorem throughout_of_invariant {invariant holds : σ → Prop}
    (sound : ∀ state, invariant state → holds state)
    (keeps : ∀ event state next, invariant state → step event state = some next → invariant next)
    (events : List ω) : ∀ state, invariant state → Throughout step holds events state := by
  induction events with
  | nil => exact fun state start => sound state start
  | cons event events ih =>
      exact fun state start => ⟨sound state start, fun next stepped =>
        ih next (keeps event state next start stepped)⟩

/-- If exactly the steps that are not admitted leave a state without the property, the property
holds throughout exactly the runs that consist of admitted steps. -/
theorem throughout_iff_along {invariant holds : σ → Prop}
    (sound : ∀ state, invariant state → holds state)
    (keeps : ∀ event state next, invariant state → admits event state →
      step event state = some next → invariant next)
    (breaks : ∀ event state next, invariant state → ¬admits event state →
      step event state = some next → ¬holds next)
    (events : List ω) : ∀ state, invariant state →
      (Throughout step holds events state ↔ Along step admits events state) := by
  induction events with
  | nil => exact fun state start => iff_of_true (sound state start) trivial
  | cons event events ih =>
      intro state start
      simp only [Throughout, Along, sound state start, true_and]
      refine forall_congr' fun next => imp_congr_right fun stepped => ?_
      by_cases admitted : admits event state
      · rw [ih next (keeps event state next start admitted stepped)]
        exact (and_iff_right admitted).symm
      · refine iff_of_false (fun throughout => ?_) fun both => admitted both.1
        have broken := breaks event state next start admitted stepped
        cases events with
        | nil => exact broken throughout
        | cons _ _ => exact broken throughout.1

end Runs
