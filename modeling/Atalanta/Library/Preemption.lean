import Mathlib.Logic.Relation

/-! Sequential code that an environment may disturb between any two of its steps, and
stacks of activations that disturb each other. States and steps are arbitrary. -/

namespace Preemption

variable {σ : Type}

structure Environment (σ : Type) where
  may : σ → σ → Prop
  refl : ∀ state, may state state
  trans : ∀ {first second third}, may first second → may second third → may first third

/-- However the environment interferes, the code runs on to a state with `post`. -/
inductive Leads (env : Environment σ) (step : σ → Option σ) (post : σ → Prop) : σ → Prop
  | done {state : σ} : (∀ later, env.may state later → post later) → Leads env step post state
  | step {state : σ} : (∀ later, env.may state later → step later ≠ none) →
      (∀ later next, env.may state later → step later = some next → Leads env step post next) →
      Leads env step post state

variable {env : Environment σ} {step : σ → Option σ} {post : σ → Prop} {state later next : σ}

theorem Leads.disturbed (leads : Leads env step post state) (disturbs : env.may state later) :
    Leads env step post later := by
  cases leads with
  | done arrived => exact .done fun last follows => arrived last (env.trans disturbs follows)
  | step moves rest =>
      exact .step (fun last follows => moves last (env.trans disturbs follows))
        fun last next follows => rest last next (env.trans disturbs follows)

theorem Leads.advance (leads : Leads env step post state) (moved : step state = some next) :
    post state ∨ Leads env step post next := by
  cases leads with
  | done arrived => exact Or.inl (arrived state (env.refl state))
  | step _ rest => exact Or.inr (rest state next (env.refl state) moved)

theorem Leads.stuck (leads : Leads env step post state) (stops : step state = none) :
    post state := by
  cases leads with
  | done arrived => exact arrived state (env.refl state)
  | step moves _ => exact absurd stops (moves state (env.refl state))

theorem Leads.bind {second : σ → Prop} (leads : Leads env step post state)
    (continues : ∀ middle, post middle → Leads env step second middle) :
    Leads env step second state := by
  induction leads with
  | done arrived => exact continues _ (arrived _ (env.refl _))
  | step moves _ ih => exact .step moves ih

theorem Leads.of_stable (stable : ∀ later, env.may state later → post later) :
    Leads env step post state :=
  .done stable

theorem Leads.of_step
    (moves : ∀ later, env.may state later → ∃ next, step later = some next ∧
      Leads env step post next) : Leads env step post state := by
  refine .step ?_ ?_
  · intro later disturbs stops
    obtain ⟨next, moved, _⟩ := moves later disturbs
    rw [stops] at moved
    cases moved
  · intro later next disturbs moved
    obtain ⟨other, same, rest⟩ := moves later disturbs
    rw [moved] at same
    cases same
    exact rest

theorem Leads.of_quiet_step (quiet : ∀ later, env.may state later → later = state)
    (moved : step state = some next) (rest : Leads env step post next) :
    Leads env step post state := by
  apply Leads.of_step
  intro later disturbs
  rw [quiet later disturbs]
  exact ⟨next, moved, rest⟩

theorem Leads.runs (leads : Leads env step post state) :
    ∃ last, Relation.ReflTransGen (fun before after => step before = some after) state last ∧
      post last := by
  induction leads with
  | done arrived => exact ⟨_, .refl, arrived _ (env.refl _)⟩
  | @step state moves rest ih =>
      cases moved : step state with
      | none => exact absurd moved (moves state (env.refl state))
      | some next =>
          obtain ⟨last, run, reached⟩ := ih state next (env.refl state) moved
          exact ⟨last, .head moved run, reached⟩

def still : Environment σ := ⟨fun before after => after = before, fun _ => rfl, fun first second =>
  second.trans first⟩

/-- A stack of activations: the state on top belongs to the activation that interrupted the
first of the stacked states, that one to the activation below, and the last to the base. -/
def Chain (active : σ → σ → Prop) (base : σ → Prop) : List σ → σ → Prop
  | [], state => base state
  | interrupted :: rest, state => active interrupted state ∧ Chain active base rest interrupted

theorem Chain.disturbed {active : σ → σ → Prop} {base : σ → Prop}
    (activeKept : ∀ {interrupted state later}, active interrupted state → env.may state later →
      active interrupted later)
    (baseKept : ∀ {state later}, base state → env.may state later → base later)
    {stack : List σ} (chain : Chain active base stack state) (disturbs : env.may state later) :
    Chain active base stack later := by
  cases stack with
  | nil => exact baseKept chain disturbs
  | cons interrupted rest => exact ⟨activeKept chain.1 disturbs, chain.2⟩

end Preemption
