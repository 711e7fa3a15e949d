import Atalanta.Library.Runs

/-! The queue of bounded capacity. -/

/-- The elements that are stored, the oldest one first. -/
structure Queue (α : Type) (capacity : Nat) where
  items : List α
  within : items.length ≤ capacity

namespace Queue

variable {α : Type} {capacity : Nat}

inductive Op (α : Type)
  | push (value : α)
  | pop
  | peek

inductive Event (α : Type)
  | pushed (value : α)
  | popped (value : α)
  | peeked (value : α)
deriving DecidableEq

def pushed (events : List (Event α)) : List α :=
  events.filterMap fun | .pushed value => some value | _ => none

def popped (events : List (Event α)) : List α :=
  events.filterMap fun | .popped value => some value | _ => none

def empty : Queue α capacity := ⟨[], Nat.zero_le capacity⟩

def push (queue : Queue α capacity) (value : α) : Option (Queue α capacity) :=
  if space : queue.items.length < capacity then
    some ⟨queue.items ++ [value], by rw [List.length_append]; exact space⟩
  else none

def rest (queue : Queue α capacity) : Queue α capacity :=
  ⟨queue.items.tail, by rw [List.length_tail]; exact Nat.le_trans (Nat.sub_le ..) queue.within⟩

def step (op : Op α) (queue : Queue α capacity) : Option (Queue α capacity × Event α) :=
  match op with
  | .push value => (queue.push value).map fun next => (next, .pushed value)
  | .pop => queue.items.head?.map fun first => (queue.rest, .popped first)
  | .peek => queue.items.head?.map fun first => (queue, .peeked first)

def Conserves (queue : Queue α capacity) (events : List (Event α)) : Prop :=
  pushed events = popped events ++ queue.items

theorem conserves_step {op : Op α} {queue next : Queue α capacity} {event : Event α}
    {before : List (Event α)} (conserves : Conserves queue before)
    (stepped : step op queue = some (next, event)) : Conserves next (before ++ [event]) := by
  unfold Conserves at *
  simp only [pushed, popped, List.filterMap_append] at *
  cases op with
  | push value =>
      obtain ⟨_, space, same⟩ := Option.map_eq_some_iff.mp stepped
      obtain ⟨rfl, rfl⟩ := Prod.mk.inj same
      unfold push at space
      split at space
      · obtain rfl := Option.some.inj space
        simp [conserves]
      · cases space
  | pop =>
      obtain ⟨first, oldest, same⟩ := Option.map_eq_some_iff.mp stepped
      obtain ⟨rfl, rfl⟩ := Prod.mk.inj same
      obtain ⟨later, items⟩ := List.head?_eq_some_iff.mp oldest
      simp [conserves, rest, items]
  | peek =>
      obtain ⟨first, oldest, same⟩ := Option.map_eq_some_iff.mp stepped
      obtain ⟨rfl, rfl⟩ := Prod.mk.inj same
      simp [conserves]

/-- What was pushed is what was popped and, behind it, what is still stored. -/
theorem conserves_run {ops : List (Op α)} {queue : Queue α capacity} {events : List (Event α)}
    (run : Refinement.runs step ops empty = some (queue, events)) : Conserves queue events :=
  Refinement.runs_invariant (fun _ _ _ _ _ conserves stepped => conserves_step conserves stepped)
    ops empty [] rfl queue events run

end Queue
