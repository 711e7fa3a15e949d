import Atalanta.Library.Queue
import Atalanta.Library.Ring

/-! The circular buffer of the smoke tests, `circular_buffer.h`, against the bounded queue. -/

namespace Atalanta.SmokeTests

abbrev Byte := BitVec 8

/-- `buffer` is the memory behind the pointer, `none` for a null pointer. -/
structure CircularBuffer where
  buffer : Option (Byte → Byte)
  size : Byte
  head : Byte
  tail : Byte

def circularBufferInit (buffer : Option (Byte → Byte)) (size : Byte) : CircularBuffer :=
  ⟨buffer, size, 0, 0⟩

def circularBufferPush (cb : CircularBuffer) (data : Byte) : CircularBuffer :=
  match cb.buffer with
  | none => cb
  | some cells =>
      let head := cb.head + 1
      { cb with
        buffer := some fun index => if index = cb.head then data else cells index
        head := if head = cb.size then 0 else head }

-- the second statement of `circular_buffer_pop`
def CircularBuffer.advanceTail (cb : CircularBuffer) : CircularBuffer :=
  { cb with tail := cb.tail + 1 }

def CircularBuffer.wrapTail (cb : CircularBuffer) : CircularBuffer :=
  if cb.tail = cb.size then { cb with tail := 0 } else cb

def circularBufferShow (cb : CircularBuffer) : Option Byte :=
  cb.buffer.map fun cells => cells cb.tail

def circularBufferPop (cb : CircularBuffer) : Option (Byte × CircularBuffer) :=
  (circularBufferShow cb).map fun data => (data, cb.advanceTail.wrapTail)

def circularBufferEmpty (cb : CircularBuffer) : Bool := cb.tail == cb.head

def circularBufferFull (cb : CircularBuffer) : Bool :=
  let nextHead := cb.head + 1
  let nextHead := if nextHead = cb.size then 0 else nextHead
  nextHead == cb.tail

def circularBufferSize (cb : CircularBuffer) : Byte := cb.head - cb.tail

/-- The calls of the buffer's users: a push when it is not full, the others when not empty. -/
def CircularBuffer.step (op : Queue.Op Byte) (cb : CircularBuffer) :
    Option (CircularBuffer × Queue.Event Byte) :=
  match op with
  | .push data =>
      if circularBufferFull cb then none else some (circularBufferPush cb data, .pushed data)
  | .pop =>
      if circularBufferEmpty cb then none
      else (circularBufferPop cb).map fun (data, cb) => (cb, .popped data)
  | .peek =>
      if circularBufferEmpty cb then none
      else (circularBufferShow cb).map fun data => (cb, .peeked data)

def slots (cells : Byte → Byte) (index : Nat) : Byte := cells (BitVec.ofNat 8 index)

def Represents (cb : CircularBuffer) (queue : List Byte) : Prop :=
  ∃ cells, cb.buffer = some cells ∧
    Ring.Holds (slots cells) cb.size.toNat cb.head.toNat cb.tail.toNat queue

/-- The elements that pops would return until the buffer is empty. -/
def CircularBuffer.stored (cb : CircularBuffer) : List Byte :=
  match cb.buffer with
  | none => []
  | some cells => Ring.contents (slots cells) cb.size.toNat cb.tail.toNat
      (Ring.count cb.size.toNat cb.head.toNat cb.tail.toNat)

theorem succ_toNat {size index : Byte} (inside : index.toNat < size.toNat) :
    (index + 1).toNat = index.toNat + 1 := by
  have bounded := size.isLt
  rw [BitVec.toNat_add]
  exact Nat.mod_eq_of_lt (by change index.toNat + 1 < 2 ^ 8; omega)

theorem next_toNat {size index : Byte} (inside : index.toNat < size.toNat) :
    (if index + 1 = size then 0 else index + 1).toNat = Ring.next size.toNat index.toNat := by
  simp only [Ring.next, ← succ_toNat inside, BitVec.toNat_inj, apply_ite BitVec.toNat]
  rfl

theorem slots_write (cells : Byte → Byte) (index data : Byte) {position : Nat}
    (within : position < 256) :
    slots (fun other => if other = index then data else cells other) position =
      Ring.write (slots cells) index.toNat data position := by
  have same : BitVec.ofNat 8 position = index ↔ position = index.toNat := by
    rw [← BitVec.toNat_inj, BitVec.toNat_ofNat, Nat.mod_eq_of_lt within]
  simp only [slots, Ring.write, same]

section Operations

variable {cb : CircularBuffer} {queue : List Byte}

theorem init_represents (cells : Byte → Byte) {size : Byte} (positive : 1 ≤ size.toNat) :
    Represents (circularBufferInit (some cells) size) [] :=
  ⟨cells, rfl, .of_empty positive⟩

theorem Represents.head_lt (represents : Represents cb queue) : cb.head.toNat < cb.size.toNat :=
  let ⟨_, _, holds⟩ := represents
  holds.head_lt

theorem Represents.tail_lt (represents : Represents cb queue) : cb.tail.toNat < cb.size.toNat :=
  let ⟨_, _, holds⟩ := represents
  holds.inside

theorem Represents.empty_iff (represents : Represents cb queue) :
    circularBufferEmpty cb = true ↔ queue = [] := by
  obtain ⟨_, _, holds⟩ := represents
  rw [← holds.empty_iff, circularBufferEmpty, beq_iff_eq, BitVec.toNat_inj]

theorem Represents.full_iff (represents : Represents cb queue) :
    circularBufferFull cb = true ↔ queue.length + 1 = cb.size.toNat := by
  have inside := represents.head_lt
  obtain ⟨_, _, holds⟩ := represents
  rw [← holds.full_iff, circularBufferFull, beq_iff_eq, ← BitVec.toNat_inj, next_toNat inside]

theorem Represents.length_lt (represents : Represents cb queue) :
    queue.length < cb.size.toNat :=
  let ⟨_, _, holds⟩ := represents
  holds.room

theorem push_represents {cells : Byte → Byte} {data : Byte} (buffer : cb.buffer = some cells)
    (inside : cb.head.toNat < cb.size.toNat)
    (pushed : Ring.Holds (Ring.write (slots cells) cb.head.toNat data) cb.size.toNat
      (Ring.next cb.size.toNat cb.head.toNat) cb.tail.toNat queue) :
    Represents (circularBufferPush cb data) queue := by
  have bounded := cb.size.isLt
  rw [← next_toNat inside] at pushed
  simp only [circularBufferPush, buffer]
  exact ⟨_, rfl, pushed.congr fun index below => slots_write cells cb.head data (by omega)⟩

theorem Represents.push (represents : Represents cb queue)
    (space : queue.length + 1 < cb.size.toNat) (data : Byte) :
    Represents (circularBufferPush cb data) (queue ++ [data]) := by
  have inside := represents.head_lt
  obtain ⟨cells, buffer, holds⟩ := represents
  exact push_represents buffer inside (holds.push space data)

theorem Represents.overrun (represents : Represents cb queue)
    (full : queue.length + 1 = cb.size.toNat) (data : Byte) :
    Represents (circularBufferPush cb data) [] := by
  have inside := represents.head_lt
  obtain ⟨cells, buffer, holds⟩ := represents
  exact push_represents buffer inside (holds.overrun full data)

theorem Represents.oldest {first : Byte} (represents : Represents cb (first :: queue)) :
    circularBufferShow cb = some first := by
  obtain ⟨cells, buffer, holds⟩ := represents
  have oldest : cells (BitVec.ofNat 8 cb.tail.toNat) = first := holds.oldest
  rw [BitVec.ofNat_toNat, BitVec.setWidth_eq] at oldest
  rw [circularBufferShow, buffer, Option.map_some, oldest]

theorem wrapTail_tail (cb : CircularBuffer) :
    cb.wrapTail.tail = if cb.tail = cb.size then 0 else cb.tail := by
  unfold CircularBuffer.wrapTail
  split <;> rfl

theorem advance_wrap_tail (inside : cb.tail.toNat < cb.size.toNat) :
    cb.advanceTail.wrapTail.tail.toNat = Ring.next cb.size.toNat cb.tail.toNat := by
  rw [wrapTail_tail, ← next_toNat inside]
  rfl

theorem wrapTail_size (cb : CircularBuffer) : cb.wrapTail.size = cb.size := by
  unfold CircularBuffer.wrapTail
  split <;> rfl

theorem wrapTail_head (cb : CircularBuffer) : cb.wrapTail.head = cb.head := by
  unfold CircularBuffer.wrapTail
  split <;> rfl

theorem wrapTail_buffer (cb : CircularBuffer) : cb.wrapTail.buffer = cb.buffer := by
  unfold CircularBuffer.wrapTail
  split <;> rfl

theorem Represents.advance {first : Byte} (represents : Represents cb (first :: queue)) :
    Represents cb.advanceTail.wrapTail queue := by
  have inside := represents.tail_lt
  obtain ⟨cells, buffer, holds⟩ := represents
  have popped := holds.pop
  rw [← advance_wrap_tail inside] at popped
  refine ⟨cells, (wrapTail_buffer _).trans buffer, ?_⟩
  rw [wrapTail_size, wrapTail_head]
  exact popped

theorem Represents.pop {first : Byte} (represents : Represents cb (first :: queue)) :
    circularBufferPop cb = some (first, cb.advanceTail.wrapTail) := by
  rw [circularBufferPop, represents.oldest, Option.map_some]

theorem Represents.stored_eq (represents : Represents cb queue) : cb.stored = queue := by
  obtain ⟨cells, buffer, holds⟩ := represents
  rw [CircularBuffer.stored, buffer]
  exact holds.eq_contents.symm

end Operations

theorem push_size (cb : CircularBuffer) (data : Byte) :
    (circularBufferPush cb data).size = cb.size := by
  unfold circularBufferPush
  split <;> rfl

/-! The buffer of a given size as a queue of that capacity less one -/

structure Refines (size : Byte) (cb : CircularBuffer) (queue : Queue Byte (size.toNat - 1)) :
    Prop where
  size_eq : cb.size = size
  represents : Represents cb queue.items

structure Agrees (size : Byte) (cb : CircularBuffer) (events : List (Queue.Event Byte))
    (queue : Queue Byte (size.toNat - 1)) : Prop where
  head_lt : cb.head.toNat < size.toNat
  tail_lt : cb.tail.toNat < size.toNat
  empty_iff : circularBufferEmpty cb = true ↔ queue.items = []
  full_iff : circularBufferFull cb = true ↔ queue.items.length = size.toNat - 1
  conserves : Queue.pushed events = Queue.popped events ++ queue.items

theorem step_refines {size : Byte} (op : Queue.Op Byte) (cb : CircularBuffer)
    (queue : Queue Byte (size.toNat - 1)) (refines : Refines size cb queue) :
    Option.Rel (Refinement.Same (Refines size)) (cb.step op) (Queue.step op queue) := by
  obtain ⟨same, represents⟩ := refines
  have positive := represents.length_lt
  rw [same] at positive
  cases op with
  | push data =>
      have full := represents.full_iff
      rw [same] at full
      by_cases space : queue.items.length < size.toNat - 1
      · have room : circularBufferFull cb = false := by
          rw [← Bool.not_eq_true, full]
          omega
        have pushed := represents.push (by rw [same]; omega) data
        simp only [CircularBuffer.step, room, Queue.step, Queue.push, space, dite_true,
          Option.map_some]
        exact .some ⟨⟨(push_size cb data).trans same, pushed⟩, rfl⟩
      · have room : circularBufferFull cb = true := full.mpr (by omega)
        simp only [CircularBuffer.step, room, Queue.step, Queue.push, space, dite_false,
          Option.map_none]
        exact .none
  | pop =>
      have nonempty := represents.empty_iff
      cases items : queue.items with
      | nil =>
          simp only [CircularBuffer.step, nonempty.mpr items, Queue.step, items]
          exact .none
      | cons first rest =>
          rw [items] at represents nonempty
          have filled : circularBufferEmpty cb = false := by
            rw [← Bool.not_eq_true, nonempty]
            exact List.cons_ne_nil first rest
          simp only [CircularBuffer.step, filled, represents.pop, Queue.step, items]
          refine .some ⟨⟨(wrapTail_size _).trans same, ?_⟩, rfl⟩
          simp only [Queue.rest, items, List.tail_cons]
          exact represents.advance
  | peek =>
      have nonempty := represents.empty_iff
      cases items : queue.items with
      | nil =>
          simp only [CircularBuffer.step, nonempty.mpr items, Queue.step, items]
          exact .none
      | cons first rest =>
          have order := represents
          rw [items] at order nonempty
          have filled : circularBufferEmpty cb = false := by
            rw [← Bool.not_eq_true, nonempty]
            exact List.cons_ne_nil first rest
          simp only [CircularBuffer.step, filled, order.oldest, Queue.step, items]
          exact .some ⟨⟨same, represents⟩, rfl⟩

theorem run_refines (cells : Byte → Byte) {size : Byte} (positive : 1 ≤ size.toNat)
    (ops : List (Queue.Op Byte)) :
    Option.Rel (Refinement.Same (Refines size))
      (Refinement.runs CircularBuffer.step ops (circularBufferInit (some cells) size))
      (Refinement.runs Queue.step ops Queue.empty) :=
  Refinement.runs_refine step_refines ops _ _ ⟨rfl, init_represents cells positive⟩

theorem Refines.agrees {size : Byte} {cb : CircularBuffer} {queue : Queue Byte (size.toNat - 1)}
    (refines : Refines size cb queue) {events : List (Queue.Event Byte)}
    (conserves : Queue.Conserves queue events) : Agrees size cb events queue where
  head_lt := refines.size_eq ▸ refines.represents.head_lt
  tail_lt := refines.size_eq ▸ refines.represents.tail_lt
  empty_iff := refines.represents.empty_iff
  full_iff := by
    have room := refines.represents.length_lt
    rw [refines.size_eq] at room
    rw [refines.represents.full_iff, refines.size_eq]
    omega
  conserves := conserves

def AgreesWithQueue (size : Byte) (code : CircularBuffer × List (Queue.Event Byte))
    (spec : Queue Byte (size.toNat - 1) × List (Queue.Event Byte)) : Prop :=
  Agrees size code.1 code.2 spec.1 ∧ code.2 = spec.2

/-- Push, pop and show on a buffer answer as the bounded queue does, in every sequence of calls
that it admits, and the buffer's state keeps describing the queue's. -/
theorem circularBuffer_refines (cells : Byte → Byte) {size : Byte} (positive : 1 ≤ size.toNat)
    (ops : List (Queue.Op Byte)) :
    Option.Rel (AgreesWithQueue size)
      (Refinement.runs CircularBuffer.step ops (circularBufferInit (some cells) size))
      (Refinement.runs Queue.step ops Queue.empty) := by
  have refines := run_refines cells positive ops
  have conserves := @Queue.conserves_run Byte (size.toNat - 1) ops
  generalize Refinement.runs CircularBuffer.step ops _ = code at refines
  generalize Refinement.runs Queue.step ops _ = spec at refines conserves
  cases refines with
  | none => exact .none
  | @some code spec same =>
      obtain ⟨related, events⟩ := same
      exact .some ⟨events ▸ related.agrees (conserves rfl), events⟩

theorem circularBuffer_refines_wrapped :
    Option.Rel (AgreesWithQueue 3)
      (Refinement.runs CircularBuffer.step [.push 1, .push 2, .pop, .push 3, .peek, .pop, .pop]
        (circularBufferInit (some fun _ => 0) 3))
      (Refinement.runs Queue.step [.push 1, .push 2, .pop, .push 3, .peek, .pop, .pop]
        Queue.empty) :=
  circularBuffer_refines (fun _ => 0) (by decide) _

/-! The number of stored elements -/

structure Counts (size : Byte) (cb : CircularBuffer) (events : List (Queue.Event Byte)) :
    Prop where
  difference : (circularBufferSize cb).toNat + (Queue.popped events).length =
    (Queue.pushed events).length
  zero_iff : circularBufferSize cb = 0 ↔ circularBufferEmpty cb = true
  capacity_iff : circularBufferSize cb = size - 1 ↔ circularBufferFull cb = true

theorem circularBufferSize_toNat (cb : CircularBuffer) :
    (circularBufferSize cb).toNat = Ring.count 256 cb.head.toNat cb.tail.toNat := by
  have head := cb.head.isLt
  have tail := cb.tail.isLt
  rw [circularBufferSize, BitVec.toNat_sub, Ring.count]
  split <;> omega

theorem Represents.length_eq {cb : CircularBuffer} {queue : List Byte}
    (represents : Represents cb queue) :
    queue.length = Ring.count cb.size.toNat cb.head.toNat cb.tail.toNat := by
  obtain ⟨_, _, holds⟩ := represents
  exact holds.length_eq

theorem size_eq_length_iff {cb : CircularBuffer} {queue : List Byte}
    (represents : Represents cb queue) :
    (circularBufferSize cb).toNat = queue.length ↔ cb.tail ≤ cb.head := by
  have tail := represents.tail_lt
  have bounded := cb.size.isLt
  rw [circularBufferSize_toNat, represents.length_eq, BitVec.le_def]
  unfold Ring.count
  split <;> omega

/-- `circular_buffer_size` counts the elements in exactly the states in which the head has not
wrapped behind the tail. -/
theorem circularBufferSize_counts_iff (cells : Byte → Byte) {size : Byte}
    (positive : 1 ≤ size.toNat) {ops : List (Queue.Op Byte)} {cb : CircularBuffer}
    {events : List (Queue.Event Byte)}
    (run : Refinement.runs CircularBuffer.step ops (circularBufferInit (some cells) size) =
      some (cb, events)) :
    Counts size cb events ↔ cb.tail ≤ cb.head := by
  have refines := run_refines cells positive ops
  have conserved := @Queue.conserves_run Byte (size.toNat - 1) ops
  rw [run] at refines
  generalize Refinement.runs Queue.step ops _ = spec at refines conserved
  cases refines with
  | @some _ spec same =>
      obtain ⟨queue, answers⟩ := spec
      obtain ⟨⟨sized, represents⟩, answered⟩ := same
      dsimp only at sized represents answered
      subst answered
      have total := congrArg List.length (conserved rfl)
      rw [List.length_append] at total
      rw [← size_eq_length_iff represents]
      constructor
      · intro counts
        have difference := counts.difference
        omega
      · intro counted
        refine ⟨by omega, ?_, ?_⟩
        · rw [represents.empty_iff, ← List.length_eq_zero_iff, ← BitVec.toNat_inj, counted]
          rfl
        · have one : (1 : Byte) ≤ size := BitVec.le_def.mpr positive
          have less : (size - 1).toNat = size.toNat - 1 := BitVec.toNat_sub_of_le one
          rw [represents.full_iff, ← BitVec.toNat_inj, counted, less, sized]
          omega

theorem circularBufferSize_counts_unwrapped :
    ∃ cb events, Refinement.runs CircularBuffer.step [.push 1, .push 2, .pop]
        (circularBufferInit (some fun _ => 0) 3) = some (cb, events) ∧
      (Counts 3 cb events ↔ cb.tail ≤ cb.head) := by
  have counts : ∀ cb events, Refinement.runs CircularBuffer.step [.push 1, .push 2, .pop]
      (circularBufferInit (some fun _ => 0) 3) = some (cb, events) →
        (Counts 3 cb events ↔ cb.tail ≤ cb.head) :=
    fun _ _ run => circularBufferSize_counts_iff (fun _ => 0) (by decide) run
  exact ⟨_, _, rfl, counts _ _ rfl⟩

/-- One element is stored behind the wrap, and 254 are counted. -/
theorem circularBufferSize_wrapped :
    ∃ cb events, Refinement.runs CircularBuffer.step [.push 1, .push 2, .pop, .pop, .push 3]
        (circularBufferInit (some fun _ => 0) 3) = some (cb, events) ∧
      ¬Counts 3 cb events := by
  refine ⟨_, _, rfl, fun counts => ?_⟩
  exact absurd counts.difference (by decide)

end Atalanta.SmokeTests
