import Atalanta.SmokeTests.CircularBuffer

/-! A pop of the circular buffer in the main program, statement by statement, with an interrupt
that pushes between any two of the statements. -/

namespace Atalanta.SmokeTests

inductive PopPoint
  | outside
  | called
  | loaded (data : Byte)
  | advanced (data : Byte)
  -- the comparison of `tail` with `size` has succeeded
  | wrapping (data : Byte)
  | returning (data : Byte)
deriving DecidableEq

/-- The buffer, how far the main program is in its pop, and every element pushed or popped. -/
structure Preempted where
  cb : CircularBuffer
  point : PopPoint
  pushed : List Byte
  popped : List Byte

inductive PreemptedEvent
  | attempt (data : Byte)
  | statement

def Preempted.initial (cells : Byte → Byte) (size : Byte) : Preempted :=
  ⟨circularBufferInit (some cells) size, .outside, [], []⟩

-- one round of the interrupt: `if not full then push`
def Preempted.attempt (data : Byte) (state : Preempted) : Preempted :=
  if circularBufferFull state.cb then state
  else { state with cb := circularBufferPush state.cb data, pushed := state.pushed ++ [data] }

def Preempted.statement (state : Preempted) : Option Preempted :=
  match state.point with
  | .outside =>
      some { state with point := if circularBufferEmpty state.cb then .outside else .called }
  | .called => (circularBufferShow state.cb).map fun data => { state with point := .loaded data }
  | .loaded data => some { state with cb := state.cb.advanceTail, point := .advanced data }
  | .advanced data =>
      some { state with
        point := if state.cb.tail = state.cb.size then .wrapping data else .returning data }
  | .wrapping data =>
      some { state with cb := { state.cb with tail := 0 }, point := .returning data }
  | .returning data =>
      some { state with point := .outside, popped := state.popped ++ [data] }

def Preempted.step : PreemptedEvent → Preempted → Option Preempted
  | .attempt data, state => some (state.attempt data)
  | .statement, state => state.statement

/-- The interrupt finds an index in range in `tail`, or a slot to spare behind the head. -/
def WrapSpared (event : PreemptedEvent) (state : Preempted) : Prop :=
  match event with
  | .attempt _ => ¬(state.cb.tail = state.cb.size ∧ state.cb.head + 1 = state.cb.size)
  | .statement => True

def FirstInFirstOut (state : Preempted) : Prop :=
  state.pushed = state.popped ++ state.cb.stored

def PopPoint.inHand : PopPoint → List Byte
  | .advanced data | .wrapping data | .returning data => [data]
  | _ => []

def PopPoint.Fits (cb : CircularBuffer) (queue : List Byte) : PopPoint → Prop
  | .outside | .returning _ => cb.tail ≠ cb.size
  | .called => cb.tail ≠ cb.size ∧ queue ≠ []
  | .loaded data => cb.tail ≠ cb.size ∧ ∃ rest, queue = data :: rest
  | .advanced _ => True
  | .wrapping _ => cb.tail = cb.size

/-- `lost` counts the times that a whole ring of elements was lost. -/
structure Lost (size : Byte) (lost : Nat) (state : Preempted) : Prop where
  size_eq : state.cb.size = size
  represents : ∃ queue, Represents state.cb.wrapTail queue ∧ state.point.Fits state.cb queue ∧
    state.pushed.length =
      state.popped.length + state.point.inHand.length + queue.length + lost * size.toNat ∧
    (lost = 0 → state.pushed = state.popped ++ state.point.inHand ++ queue)

theorem wrapTail_of_ne {cb : CircularBuffer} (inside : cb.tail ≠ cb.size) : cb.wrapTail = cb :=
  if_neg inside

theorem wrapTail_of_eq {cb : CircularBuffer} (outside : cb.tail = cb.size) :
    cb.wrapTail = { cb with tail := 0 } :=
  if_pos outside

theorem Represents.tail_ne {cb : CircularBuffer} {queue : List Byte}
    (represents : Represents cb queue) : cb.tail ≠ cb.size := by
  intro outside
  have inside := represents.tail_lt
  rw [outside] at inside
  exact Nat.lt_irrefl _ inside

theorem push_tail (cb : CircularBuffer) (data : Byte) :
    (circularBufferPush cb data).tail = cb.tail := by
  unfold circularBufferPush
  split <;> rfl

theorem push_wrapTail (cb : CircularBuffer) (data : Byte) :
    (circularBufferPush cb data).wrapTail = circularBufferPush cb.wrapTail data := by
  by_cases outside : cb.tail = cb.size
  · rw [wrapTail_of_eq outside, wrapTail_of_eq (by rw [push_tail, push_size, outside])]
    obtain ⟨buffer, size, head, tail⟩ := cb
    cases buffer with
    | none => rfl
    | some cells => rfl
  · rw [wrapTail_of_ne outside, wrapTail_of_ne (by rwa [push_tail, push_size])]

/-- Without interrupts the statements are those of `circular_buffer_pop`. -/
theorem statements_pop {cb after : CircularBuffer} {data : Byte} (pushed popped : List Byte)
    (pop : circularBufferPop cb = some (data, after)) :
    ∃ statements, Runs.run Preempted.step (List.replicate statements .statement)
      ⟨cb, .called, pushed, popped⟩ = some ⟨after, .outside, pushed, popped ++ [data]⟩ := by
  obtain ⟨loaded, show_, same⟩ := Option.map_eq_some_iff.mp pop
  obtain ⟨rfl, rfl⟩ := Prod.mk.inj same
  by_cases wraps : cb.advanceTail.tail = cb.advanceTail.size
  · refine ⟨5, ?_⟩
    simp only [List.replicate, Runs.run, Preempted.step, Preempted.statement, show_,
      Option.map_some, Option.bind_some, if_pos wraps, wrapTail_of_eq wraps]
  · refine ⟨4, ?_⟩
    simp only [List.replicate, Runs.run, Preempted.step, Preempted.statement, show_,
      Option.map_some, Option.bind_some, if_neg wraps, wrapTail_of_ne wraps]

section Window

variable {cb : CircularBuffer} {queue : List Byte}

theorem full_outside (represents : Represents cb.wrapTail queue) (outside : cb.tail = cb.size) :
    circularBufferFull cb = false := by
  have inside := represents.head_lt
  rw [wrapTail_head, wrapTail_size] at inside
  rw [← Bool.not_eq_true, circularBufferFull, beq_iff_eq, outside, ← BitVec.toNat_inj,
    next_toNat inside]
  have bounded : Ring.next cb.size.toNat cb.head.toNat < cb.size.toNat := Ring.next_lt inside
  omega

theorem length_outside (represents : Represents cb.wrapTail queue) (outside : cb.tail = cb.size) :
    queue.length = cb.head.toNat := by
  have length := represents.length_eq
  rw [wrapTail_head, wrapTail_size, wrapTail_tail, if_pos outside] at length
  exact length

theorem head_last_iff (inside : cb.head.toNat < cb.size.toNat) :
    cb.head + 1 = cb.size ↔ cb.head.toNat + 1 = cb.size.toNat := by
  rw [← BitVec.toNat_inj, succ_toNat inside]

/-- A push is lost in exactly the states in which the interrupt takes the ring for emptier than
it is. -/
theorem attempt_cases {state : Preempted} {queue : List Byte} (data : Byte)
    (represents : Represents state.cb.wrapTail queue) :
    (WrapSpared (.attempt data) state ∧ (state.attempt data = state ∨
      state.attempt data = { state with
        cb := circularBufferPush state.cb data, pushed := state.pushed ++ [data] } ∧
      Represents (circularBufferPush state.cb data).wrapTail (queue ++ [data]))) ∨
    (¬WrapSpared (.attempt data) state ∧ state.cb.tail = state.cb.size ∧
      queue.length + 1 = state.cb.size.toNat ∧
      state.attempt data = { state with
        cb := circularBufferPush state.cb data, pushed := state.pushed ++ [data] } ∧
      Represents (circularBufferPush state.cb data).wrapTail []) := by
  have inside := represents.head_lt
  rw [wrapTail_head, wrapTail_size] at inside
  rw [push_wrapTail]
  by_cases outside : state.cb.tail = state.cb.size
  · have length := length_outside represents outside
    have pushes : state.attempt data = { state with
        cb := circularBufferPush state.cb data, pushed := state.pushed ++ [data] } := by
      rw [Preempted.attempt, full_outside represents outside]
      rfl
    by_cases last : state.cb.head + 1 = state.cb.size
    · have full := (head_last_iff inside).mp last
      refine .inr ⟨fun spared => spared ⟨outside, last⟩, outside, by omega, pushes, ?_⟩
      exact represents.overrun (by rw [wrapTail_size]; omega) data
    · have space := mt (head_last_iff inside).mpr last
      refine .inl ⟨fun both => last both.2, .inr ⟨pushes, ?_⟩⟩
      exact represents.push (by rw [wrapTail_size]; omega) data
  · refine .inl ⟨fun both => outside both.1, ?_⟩
    have same := wrapTail_of_ne outside
    have full := represents.full_iff
    have room := represents.length_lt
    rw [same] at full room
    by_cases space : circularBufferFull state.cb = true
    · exact .inl (if_pos space)
    · refine .inr ⟨if_neg space, ?_⟩
      rw [full] at space
      exact represents.push (by rw [wrapTail_size]; omega) data

theorem PopPoint.Fits.push {point : PopPoint} (fits : point.Fits cb queue) (data : Byte) :
    point.Fits (circularBufferPush cb data) (queue ++ [data]) := by
  cases point with
  | outside => simpa only [Fits, push_tail, push_size] using fits
  | called => exact ⟨by simpa only [push_tail, push_size] using fits.1, by simp⟩
  | loaded first =>
      obtain ⟨inside, rest, rfl⟩ := fits
      exact ⟨by simpa only [push_tail, push_size] using inside, rest ++ [data], rfl⟩
  | advanced first => trivial
  | wrapping first => simpa only [Fits, push_tail, push_size] using fits
  | returning first => simpa only [Fits, push_tail, push_size] using fits

theorem PopPoint.Fits.overrun {point : PopPoint} (fits : point.Fits cb queue)
    (outside : cb.tail = cb.size) (data : Byte) : point.Fits (circularBufferPush cb data) [] := by
  cases point with
  | outside => exact absurd outside fits
  | called => exact absurd outside fits.1
  | loaded first => exact absurd outside fits.1
  | advanced first => trivial
  | wrapping first => simpa only [Fits, push_tail, push_size] using fits
  | returning first => exact absurd outside fits

end Window

theorem lost_attempt {size : Byte} {count : Nat} {state : Preempted} (data : Byte)
    (lost : Lost size count state) :
    (WrapSpared (.attempt data) state ∧ Lost size count (state.attempt data)) ∨
      (¬WrapSpared (.attempt data) state ∧ Lost size (count + 1) (state.attempt data)) := by
  obtain ⟨sized, queue, represents, fits, total, exact_⟩ := lost
  rcases attempt_cases data represents with ⟨spared, same | ⟨same, pushed⟩⟩ |
    ⟨overruns, outside, full, same, emptied⟩
  · rw [same]
    exact .inl ⟨spared, sized, queue, represents, fits, total, exact_⟩
  · rw [same]
    refine .inl ⟨spared, (push_size ..).trans sized, queue ++ [data], pushed, fits.push data, ?_,
      fun none => ?_⟩
    · simp only [List.length_append, List.length_singleton]
      omega
    · rw [exact_ none, List.append_assoc _ queue]
  · rw [same]
    refine .inr ⟨overruns, (push_size ..).trans sized, [], emptied, fits.overrun outside data, ?_,
      fun none => absurd none (Nat.succ_ne_zero count)⟩
    rw [sized] at full
    simp only [List.length_append, List.length_singleton, List.length_nil, Nat.succ_mul]
    omega

theorem lost_statement {size : Byte} {count : Nat} {state : Preempted}
    (lost : Lost size count state) :
    ∃ next, state.statement = some next ∧ Lost size count next := by
  obtain ⟨sized, queue, represents, fits, total, exact_⟩ := lost
  obtain ⟨cb, point, pushed, popped⟩ := state
  cases point with
  | outside =>
      have settled := represents
      rw [wrapTail_of_ne fits] at settled
      by_cases empty : circularBufferEmpty cb = true
      · refine ⟨⟨cb, .outside, pushed, popped⟩, ?_, sized, queue, represents, fits, total, exact_⟩
        simp only [Preempted.statement, if_pos empty]
      · refine ⟨⟨cb, .called, pushed, popped⟩, ?_, sized, queue, represents, ⟨fits, ?_⟩, total,
          exact_⟩
        · simp only [Preempted.statement, if_neg empty]
        · exact mt settled.empty_iff.mpr empty
  | called =>
      obtain ⟨inside, nonempty⟩ := fits
      obtain ⟨first, rest, rfl⟩ := List.exists_cons_of_ne_nil nonempty
      have settled := represents
      rw [wrapTail_of_ne inside] at settled
      have shown := settled.oldest
      refine ⟨⟨cb, .loaded first, pushed, popped⟩, ?_, sized, _, represents,
        ⟨inside, rest, rfl⟩, total, exact_⟩
      simp only [Preempted.statement, shown, Option.map_some]
  | loaded first =>
      obtain ⟨inside, rest, rfl⟩ := fits
      have settled := represents
      rw [wrapTail_of_ne inside] at settled
      refine ⟨_, rfl, sized, rest, settled.advance, trivial, ?_, fun none => ?_⟩
      · simp only [PopPoint.inHand, List.length_cons, List.length_nil] at total ⊢
        omega
      · simpa [PopPoint.inHand] using exact_ none
  | advanced first =>
      by_cases outside : cb.tail = cb.size
      · refine ⟨⟨cb, .wrapping first, pushed, popped⟩, ?_, sized, queue, represents, outside,
          total, exact_⟩
        simp only [Preempted.statement, if_pos outside]
      · refine ⟨⟨cb, .returning first, pushed, popped⟩, ?_, sized, queue, represents, outside,
          total, exact_⟩
        simp only [Preempted.statement, if_neg outside]
  | wrapping first =>
      have wrapped := wrapTail_of_eq fits
      rw [wrapped] at represents
      have settled := represents.tail_ne
      refine ⟨_, rfl, sized, queue, ?_, settled, total, exact_⟩
      rw [wrapTail_of_ne settled]
      exact represents
  | returning first =>
      refine ⟨_, rfl, sized, queue, represents, fits, ?_, fun none => ?_⟩
      · simp only [PopPoint.inHand, List.length_append, List.length_singleton, List.length_nil]
          at total ⊢
        omega
      · simpa [PopPoint.inHand] using exact_ none

theorem lost_step {size : Byte} (count : Nat) (event : PreemptedEvent) (state : Preempted)
    (lost : Lost size count state) : ∃ next, Preempted.step event state = some next ∧
      ((WrapSpared event state ∧ Lost size count next) ∨
        (¬WrapSpared event state ∧ ∃ more, 0 < more ∧ Lost size (count + more) next)) := by
  cases event with
  | attempt data =>
      refine ⟨_, rfl, (lost_attempt data lost).imp_right fun overruns => ?_⟩
      exact ⟨overruns.1, 1, Nat.one_pos, overruns.2⟩
  | statement =>
      obtain ⟨next, stepped, kept⟩ := lost_statement lost
      exact ⟨next, stepped, .inl ⟨trivial, kept⟩⟩

/-- Pushes between the statements of a pop keep the order of the elements and lose none, unless
one of them finds the tail behind the last slot and the head on it. -/
theorem preempted_pop_iff (cells : Byte → Byte) {size : Byte} (two : 2 ≤ size.toNat)
    (events : List PreemptedEvent) :
    ∃ last, Runs.run Preempted.step events (Preempted.initial cells size) = some last ∧
      (last.point = .outside → (FirstInFirstOut last ↔
        Runs.Along Preempted.step WrapSpared events (Preempted.initial cells size))) := by
  have start : Lost size 0 (Preempted.initial cells size) := by
    have positive : 1 ≤ size.toNat := by omega
    have empty := init_represents cells positive
    refine ⟨rfl, [], ?_, empty.tail_ne, by simp [Preempted.initial, PopPoint.inHand],
      fun _ => rfl⟩
    rwa [Preempted.initial, wrapTail_of_ne empty.tail_ne]
  obtain ⟨last, more, ran, ⟨sized, queue, represents, fits, total, exact_⟩, along⟩ :=
    Runs.run_losses lost_step events 0 _ start
  refine ⟨last, ran, fun outside => ?_⟩
  rw [outside] at fits total exact_
  rw [wrapTail_of_ne fits] at represents
  rw [← along, FirstInFirstOut, represents.stored_eq]
  constructor
  · intro order
    have length := congrArg List.length order
    rw [List.length_append] at length
    simp only [PopPoint.inHand, List.length_nil] at total
    rw [Nat.zero_add] at total
    have nothing : more * size.toNat = 0 := by omega
    rcases Nat.mul_eq_zero.mp nothing with none | empty
    · exact none
    · omega
  · intro none
    simpa [PopPoint.inHand, none] using exact_

-- three pops, the last of them from the last slot with a push in the middle of its wrap
def sparedEvents : List PreemptedEvent :=
  [.attempt 1, .attempt 2, .statement, .statement, .statement, .statement, .statement, .statement,
    .statement, .statement, .attempt 3, .statement, .statement, .statement, .statement,
    .statement, .attempt 4, .statement, .statement, .statement]

theorem preempted_pop_spared :
    ∃ last, Runs.run Preempted.step sparedEvents (Preempted.initial (fun _ => 0) 3) = some last ∧
      last.point = .outside ∧ last.popped = [1, 2, 3] ∧ FirstInFirstOut last ∧
      (FirstInFirstOut last ↔
        Runs.Along Preempted.step WrapSpared sparedEvents (Preempted.initial (fun _ => 0) 3)) := by
  obtain ⟨last, ran, kept⟩ := preempted_pop_iff (fun _ => 0) (by decide : 2 ≤ (3 : Byte).toNat)
    sparedEvents
  have ends := ran
  cases Option.some.inj ends
  exact ⟨_, ran, rfl, rfl, by simp only [FirstInFirstOut]; decide, kept rfl⟩

/-- Two pushes while `tail` is the size: the ring looks empty, both elements are gone. -/
theorem preempted_pop_loses :
    ∃ last, Runs.run Preempted.step
        [.attempt 1, .statement, .statement, .statement, .statement, .statement, .attempt 2,
          .statement, .statement, .statement, .attempt 3, .attempt 4, .statement, .statement,
          .statement] (Preempted.initial (fun _ => 0) 2) = some last ∧
      last.point = .outside ∧ last.pushed = [1, 2, 3, 4] ∧ last.popped = [1, 2] ∧
      ¬FirstInFirstOut last :=
  ⟨_, rfl, rfl, rfl, rfl, by simp only [FirstInFirstOut]; decide⟩

end Atalanta.SmokeTests
