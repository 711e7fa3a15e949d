/-! Memories whose words consist of separately writable lanes, over arbitrary types of
indices, lanes and lane values. A request stream carries at most one request in each
cycle; a request takes effect at once, so a later request sees it. -/

namespace LaneMemory

variable {ι κ β : Type}

/-- A request to one word. A read enables no lane. -/
structure Request (ι κ β : Type) where
  index : ι
  enable : κ → Bool
  data : κ → β

def apply [DecidableEq ι] (contents : ι → κ → β) (request : Request ι κ β) : ι → κ → β :=
  fun index lane =>
    if index = request.index ∧ request.enable lane = true then request.data lane
    else contents index lane

def contentsAt [DecidableEq ι] (initial : ι → κ → β) (stream : Nat → Option (Request ι κ β)) :
    Nat → ι → κ → β
  | 0 => initial
  | cycle + 1 =>
    match stream cycle with
    | some request => apply (contentsAt initial stream cycle) request
    | none => contentsAt initial stream cycle

theorem contentsAt_of_none [DecidableEq ι] (initial : ι → κ → β)
    (stream : Nat → Option (Request ι κ β)) {cycle : Nat} (here : stream cycle = none) :
    contentsAt initial stream (cycle + 1) = contentsAt initial stream cycle := by
  simp only [contentsAt, here]

theorem contentsAt_of_some [DecidableEq ι] (initial : ι → κ → β)
    (stream : Nat → Option (Request ι κ β)) {cycle : Nat} {request : Request ι κ β}
    (here : stream cycle = some request) :
    contentsAt initial stream (cycle + 1) = apply (contentsAt initial stream cycle) request := by
  simp only [contentsAt, here]

def Writes (stream : Nat → Option (Request ι κ β)) (index : ι) (lane : κ) (cycle : Nat)
    (value : β) : Prop :=
  ∃ request, stream cycle = some request ∧ request.index = index ∧
    request.enable lane = true ∧ request.data lane = value

/-- The value of the latest write before a cycle, or the initial value without one. -/
def Latest (initial : ι → κ → β) (stream : Nat → Option (Request ι κ β)) (index : ι) (lane : κ)
    (cycle : Nat) (value : β) : Prop :=
  (∃ writer < cycle, Writes stream index lane writer value ∧
    ∀ later, writer < later → later < cycle → ∀ other, ¬Writes stream index lane later other) ∨
  (initial index lane = value ∧
    ∀ earlier < cycle, ∀ other, ¬Writes stream index lane earlier other)

theorem Latest.keep {initial : ι → κ → β} {stream : Nat → Option (Request ι κ β)} {index : ι}
    {lane : κ} {cycle : Nat} {value : β} (latest : Latest initial stream index lane cycle value)
    (silent : ∀ other, ¬Writes stream index lane cycle other) :
    Latest initial stream index lane (cycle + 1) value := by
  rcases latest with ⟨writer, before, writes, last⟩ | ⟨untouched, none⟩
  · refine Or.inl ⟨writer, by omega, writes, fun later after within => ?_⟩
    by_cases now : later = cycle
    · exact now ▸ silent
    · exact last later after (by omega)
  · refine Or.inr ⟨untouched, fun earlier within => ?_⟩
    by_cases now : earlier = cycle
    · exact now ▸ silent
    · exact none earlier (by omega)

theorem contentsAt_latest [DecidableEq ι] (initial : ι → κ → β)
    (stream : Nat → Option (Request ι κ β)) (index : ι) (lane : κ) (cycle : Nat) :
    Latest initial stream index lane cycle (contentsAt initial stream cycle index lane) := by
  induction cycle with
  | zero => exact Or.inr ⟨rfl, fun earlier within => absurd within (by omega)⟩
  | succ cycle ih =>
      cases here : stream cycle with
      | none =>
          rw [contentsAt_of_none initial stream here]
          apply ih.keep
          rintro other ⟨request, found, _⟩
          rw [here] at found
          cases found
      | some request =>
          rw [contentsAt_of_some initial stream here]
          unfold apply
          split
          · rename_i addressed
            exact Or.inl ⟨cycle, by omega,
              ⟨request, here, addressed.1.symm, addressed.2, rfl⟩,
              fun later after within => absurd within (by omega)⟩
          · rename_i elsewhere
            apply ih.keep
            rintro other ⟨found, same, indexEq, enabled, _⟩
            rw [here, Option.some.injEq] at same
            subst found
            exact elsewhere ⟨indexEq.symm, enabled⟩

end LaneMemory
