import Mathlib.Data.List.Induction

/-! What one party sees of a state that several parties act on, compared with what its own
actions alone would have made of it. -/

namespace Noninterference

variable {σ α ω : Type} (step : σ → α → σ) (view : σ → ω) (own : ω → α → ω) (visible : α → Bool)

/-- The view is what the visible actions alone make of it. -/
def Follows (start : σ) (actions : List α) : Prop :=
  view (actions.foldl step start) = (actions.filter visible).foldl own (view start)

def Respects (state : σ) (action : α) : Prop :=
  view (step state action) = if visible action then own (view state) action else view state

variable {step view own visible}

theorem follows_append {start : σ} {seen : List α} {action : α}
    (follows : Follows step view own visible start seen) :
    Follows step view own visible start (seen ++ [action]) ↔
      Respects step view own visible (seen.foldl step start) action := by
  unfold Follows Respects at *
  rw [List.foldl_append, List.filter_append, List.foldl_append, ← follows]
  cases shown : visible action <;> simp [shown]

/-- The view follows the visible actions all along exactly if each action on the way respects
it. -/
theorem follows_iff (start : σ) (actions : List α) :
    (∀ seen, seen <+: actions → Follows step view own visible start seen) ↔
      ∀ seen action, seen ++ [action] <+: actions →
        Respects step view own visible (seen.foldl step start) action := by
  constructor
  · intro follows seen action within
    have before := follows seen ((List.prefix_append seen [action]).trans within)
    exact (follows_append before).mp (follows _ within)
  · intro respects seen within
    induction seen using List.reverseRecOn with
    | nil => exact rfl
    | append_singleton seen action ih =>
        have before := ih ((List.prefix_append seen [action]).trans within)
        exact (follows_append before).mpr (respects seen action within)

theorem view_visible
    (consistent : ∀ state action, visible action = true →
      view (step state action) = own (view state) action) (start : σ) (actions : List α) :
    view ((actions.filter visible).foldl step start) =
      (actions.filter visible).foldl own (view start) := by
  have shown : ∀ action ∈ actions.filter visible, visible action = true :=
    fun action member => (List.mem_filter.mp member).2
  generalize actions.filter visible = rest at shown
  induction rest generalizing start with
  | nil => rfl
  | cons action rest ih =>
      rw [List.foldl_cons, List.foldl_cons, ← consistent _ _ (shown action List.mem_cons_self)]
      exact ih _ fun later member => shown later (List.mem_cons_of_mem _ member)

end Noninterference
