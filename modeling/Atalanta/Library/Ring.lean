import Mathlib.Algebra.Ring.Nat

/-! Ring buffers: a queue in an array of slots, between an index to read from and an index to
write to, with one slot always left free. -/

namespace Ring

variable {α : Type} {cells : Nat → α} {size head tail : Nat} {queue : List α}

def next (size index : Nat) : Nat := if index + 1 = size then 0 else index + 1

def place (size start offset : Nat) : Nat :=
  if start + offset < size then start + offset else start + offset - size

def count (size head tail : Nat) : Nat := if tail ≤ head then head - tail else size + head - tail

def contents (cells : Nat → α) (size tail length : Nat) : List α :=
  (List.range length).map fun offset => cells (place size tail offset)

def write (cells : Nat → α) (index : Nat) (value : α) : Nat → α :=
  fun other => if other = index then value else cells other

theorem next_lt (inside : head < size) : next size head < size := by
  unfold next
  split <;> omega

theorem place_lt {offset : Nat} (inside : tail < size) (within : offset < size) :
    place size tail offset < size := by
  unfold place
  split <;> omega

theorem place_eq_mod {offset : Nat} (inside : tail < size) (within : offset ≤ size) :
    place size tail offset = (tail + offset) % size := by
  unfold place
  split
  · rename_i small
    exact (Nat.mod_eq_of_lt small).symm
  · rename_i wraps
    rw [Nat.mod_eq_sub_mod (Nat.le_of_not_lt wraps), Nat.mod_eq_of_lt (by omega)]

theorem next_eq_place (inside : tail < size) : next size tail = place size tail 1 := by
  unfold next place
  split <;> split <;> omega

theorem next_place {offset : Nat} (inside : tail < size) (within : offset < size) :
    next size (place size tail offset) = place size tail (offset + 1) := by
  unfold next place
  split <;> split <;> split <;> omega

theorem place_next {offset : Nat} (within : offset < size) :
    place size (next size tail) offset = place size tail (offset + 1) := by
  unfold next place
  split <;> split <;> split <;> omega

theorem place_ne {left right : Nat} (order : left < right) (within : right < size) :
    place size tail left ≠ place size tail right := by
  unfold place
  split <;> split <;> omega

@[simp] theorem length_contents (length : Nat) :
    (contents cells size tail length).length = length := by
  rw [contents, List.length_map, List.length_range]

@[simp] theorem getElem_contents {length index : Nat}
    (within : index < (contents cells size tail length).length) :
    (contents cells size tail length)[index] = cells (place size tail index) := by
  simp only [contents, List.getElem_map, List.getElem_range]

theorem contents_succ (inside : tail < size) {length : Nat} (within : length < size) :
    contents cells size tail (length + 1) =
      cells tail :: contents cells size (next size tail) length := by
  have first : place size tail 0 = tail := by simp [place, inside]
  rw [contents, List.range_succ_eq_map, List.map_cons, List.map_map, first]
  congr 1
  refine List.map_congr_left fun offset below => ?_
  have bound := List.mem_range.mp below
  rw [Function.comp_apply, place_next (by omega)]

theorem contents_write {length : Nat} (within : length < size) (value : α) :
    contents (write cells (place size tail length) value) size tail (length + 1) =
      contents cells size tail length ++ [value] := by
  rw [contents, List.range_succ, List.map_append, List.map_singleton, write, if_pos rfl]
  congr 1
  refine List.map_congr_left fun offset below => ?_
  exact if_neg (place_ne (List.mem_range.mp below) within)

/-- Writing over the oldest slot of a ring without a free one moves its window by one. -/
theorem contents_rotate (inside : tail < size) (value : α) :
    contents (write cells tail value) size (next size tail) size =
      (contents cells size tail size).tail ++ [value] := by
  obtain ⟨others, rfl⟩ : ∃ others, size = others + 1 := ⟨size - 1, by omega⟩
  have last : place (others + 1) (next (others + 1) tail) others = tail := by
    unfold place next
    split <;> split <;> omega
  rw [contents_succ inside (by omega), List.tail_cons]
  have rotated : contents (write cells (place (others + 1) (next (others + 1) tail) others) value)
      (others + 1) (next (others + 1) tail) (others + 1) = _ :=
    contents_write (Nat.lt_succ_self others) value
  rwa [last] at rotated

/-- The slots from `tail` up to `head` hold the queue, its oldest element first. -/
structure Holds (cells : Nat → α) (size head tail : Nat) (queue : List α) : Prop where
  inside : tail < size
  room : queue.length < size
  head_eq : head = place size tail queue.length
  queue_eq : queue = contents cells size tail queue.length

theorem Holds.of_empty (inside : tail < size) : Holds cells size tail tail [] :=
  ⟨inside, by simp; omega, by simp [place, inside], rfl⟩

theorem Holds.congr {other : Nat → α} (holds : Holds cells size head tail queue)
    (same : ∀ index < size, other index = cells index) : Holds other size head tail queue where
  inside := holds.inside
  room := holds.room
  head_eq := holds.head_eq
  queue_eq := by
    refine holds.queue_eq.trans (List.map_congr_left fun offset below => ?_)
    have bound := List.mem_range.mp below
    exact (same _ (place_lt holds.inside (Nat.lt_trans bound holds.room))).symm

theorem Holds.head_lt (holds : Holds cells size head tail queue) : head < size :=
  holds.head_eq ▸ place_lt holds.inside holds.room

theorem Holds.length_eq (holds : Holds cells size head tail queue) :
    queue.length = count size head tail := by
  obtain ⟨inside, room, head_eq, _⟩ := holds
  unfold place at head_eq
  unfold count
  split at head_eq <;> split <;> omega

theorem Holds.eq_contents (holds : Holds cells size head tail queue) :
    queue = contents cells size tail (count size head tail) :=
  holds.length_eq ▸ holds.queue_eq

theorem Holds.empty_iff (holds : Holds cells size head tail queue) : tail = head ↔ queue = [] := by
  have length := holds.length_eq
  have inside := holds.inside
  have room := holds.head_lt
  unfold count at length
  rw [← List.length_eq_zero_iff, length]
  split <;> omega

theorem Holds.full_iff (holds : Holds cells size head tail queue) :
    next size head = tail ↔ queue.length + 1 = size := by
  have length := holds.length_eq
  have inside := holds.inside
  have room := holds.head_lt
  unfold count at length
  unfold next
  rw [length]
  split <;> split <;> omega

theorem Holds.push (holds : Holds cells size head tail queue) (space : queue.length + 1 < size)
    (value : α) : Holds (write cells head value) size (next size head) tail (queue ++ [value]) where
  inside := holds.inside
  room := by simpa using space
  head_eq := by
    rw [holds.head_eq, next_place holds.inside holds.room, List.length_append]
    rfl
  queue_eq := by
    rw [List.length_append, List.length_singleton, holds.head_eq, contents_write holds.room,
      ← holds.queue_eq]

theorem Holds.oldest {first : α} (holds : Holds cells size head tail (first :: queue)) :
    cells tail = first := by
  have room := holds.room
  simp only [List.length_cons] at room
  have order := holds.queue_eq
  rw [List.length_cons, contents_succ holds.inside (by omega)] at order
  exact (List.cons.inj order).1.symm

theorem Holds.pop {first : α} (holds : Holds cells size head tail (first :: queue)) :
    Holds cells size head (next size tail) queue where
  inside := next_lt holds.inside
  room := by
    have room := holds.room
    simp only [List.length_cons] at room
    omega
  head_eq := by
    have room := holds.room
    simp only [List.length_cons] at room
    rw [place_next (by omega), holds.head_eq, List.length_cons]
  queue_eq := by
    have room := holds.room
    simp only [List.length_cons] at room
    have order := holds.queue_eq
    rw [List.length_cons, contents_succ holds.inside (by omega)] at order
    exact (List.cons.inj order).2

/-- A value written into the last free slot makes the ring an empty one. -/
theorem Holds.overrun (holds : Holds cells size head tail queue) (full : queue.length + 1 = size)
    (value : α) : Holds (write cells head value) size (next size head) tail [] := by
  rw [holds.full_iff.mpr full]
  exact .of_empty holds.inside

end Ring
