import Atalanta.Library.Ring
import Mathlib.Algebra.Ring.Int.Defs

/-! The pattern buffer of the smoke tests, `pattern_buffer.h`, as a window that slides over the
bytes pushed. -/

namespace Atalanta.SmokeTests

/-- `buffer` and `pattern` are the memory behind the pointers, `none` a null pointer; the indices
are computed as `int`. -/
structure PatternBuffer where
  buffer : Option (Int → BitVec 8)
  len : BitVec 8
  head : Int
  tail : Int
  pattern : Int → BitVec 8
  payload : BitVec 8
  dataCount : BitVec 16

def PatternBuffer.length (pb : PatternBuffer) : Int := pb.len.toNat

def patternBufferPush (pb : PatternBuffer) (data : BitVec 8) : PatternBuffer :=
  match pb.buffer with
  | none => pb
  | some cells =>
      { pb with
        payload := cells pb.tail
        buffer := some fun index => if index = pb.tail then data else cells index
        tail := (pb.tail + 1).tmod pb.length
        head := (pb.head + 1).tmod pb.length
        dataCount := pb.dataCount + 1 }

def zeroed (cells : Int → BitVec 8) (length : Nat) : Int → BitVec 8 :=
  (List.range length).foldl
    (fun cells (i : Nat) (index : Int) => if index = i then 0 else cells index) cells

def patternBufferResetBuffer (pb : PatternBuffer) : Option PatternBuffer :=
  pb.buffer.map fun cells =>
    { pb with
      buffer := some (zeroed cells pb.len.toNat)
      payload := 0
      dataCount := 0
      head := 0
      tail := pb.length - 1 }

def patternBufferCheckPattern (pb : PatternBuffer) : Option Bool :=
  pb.buffer.map fun cells => (List.range pb.len.toNat).all fun (i : Nat) =>
    cells ((pb.tail + i).tmod pb.length) == pb.pattern (pb.length - i - 1)

def PatternBuffer.patternBytes (pb : PatternBuffer) : List (BitVec 8) :=
  (List.range pb.len.toNat).map fun (i : Nat) => pb.pattern i

/-- The last `length` bytes of the stream, with zeros in front of a shorter one. -/
def window (length : Nat) (stream : List (BitVec 8)) : List (BitVec 8) :=
  (List.replicate length 0 ++ stream).drop stream.length

/-- The byte that came `length` bytes before the last one of the stream. -/
def pushedBefore (length : Nat) (stream : List (BitVec 8)) : BitVec 8 :=
  stream.reverse.getD length 0

/-- `tail` is the slot of the oldest byte in the window. -/
structure Slides (pb : PatternBuffer) (len : BitVec 8) (stream : List (BitVec 8)) : Prop where
  len_eq : pb.len = len
  buffer : ∃ cells tail, pb.buffer = some cells ∧ pb.tail = ((tail : Nat) : Int) ∧
    tail < len.toNat ∧
    Ring.contents (fun (index : Nat) => cells index) len.toNat tail len.toNat =
      window len.toNat stream
  head_lt : 0 ≤ pb.head ∧ pb.head < pb.length
  payload : pb.payload = pushedBefore len.toNat stream

theorem window_append (length : Nat) (stream : List (BitVec 8)) (data : BitVec 8)
    (positive : 1 ≤ length) :
    window length (stream ++ [data]) = (window length stream).tail ++ [data] := by
  unfold window
  rw [← List.append_assoc, List.length_append, List.length_singleton, ← List.drop_drop,
    List.drop_append_of_le_length (by simp), List.drop_one,
    List.tail_append_of_ne_nil]
  intro empty
  have length_eq := congrArg List.length empty
  simp at length_eq
  omega

theorem head_window (length : Nat) (stream : List (BitVec 8)) (data : BitVec 8)
    (positive : 1 ≤ length) :
    (window length stream).head? = some (pushedBefore length (stream ++ [data])) := by
  obtain ⟨earlier, rfl⟩ : ∃ earlier, length = earlier + 1 := ⟨length - 1, by omega⟩
  rw [window, pushedBefore, List.head?_drop, List.reverse_append, List.reverse_singleton,
    List.singleton_append, List.getD_cons_succ, List.getElem?_append, List.length_replicate]
  by_cases short : stream.length < earlier + 1
  · have beyond : stream.reverse.length ≤ earlier := by rw [List.length_reverse]; omega
    rw [if_pos short, List.getElem?_replicate, if_pos short, List.getD_eq_getElem?_getD,
      List.getElem?_eq_none beyond, Option.getD_none]
  · have same : stream.length - 1 - earlier = stream.length - (earlier + 1) := by omega
    rw [if_neg short, List.getD_eq_getElem?_getD, List.getElem?_reverse (by omega), same,
      List.getElem?_eq_getElem (by omega), Option.getD_some]

theorem tmod_place {size start offset : Nat} (inside : start < size) (within : offset ≤ size) :
    ((start : Int) + offset).tmod size = (Ring.place size start offset : Int) := by
  rw [Ring.place_eq_mod inside within]
  exact (Int.ofNat_tmod (start + offset) size).symm

theorem tmod_next {size index : Nat} (inside : index < size) :
    ((index : Int) + 1).tmod size = (Ring.next size index : Int) := by
  rw [Ring.next_eq_place inside]
  have one : 1 ≤ size := by omega
  exact tmod_place inside one

theorem zeroed_eq (cells : Int → BitVec 8) {length index : Nat} (within : index < length) :
    zeroed cells length index = 0 := by
  induction length with
  | zero => omega
  | succ length ih =>
      rw [zeroed, List.range_succ, List.foldl_append, List.foldl_cons, List.foldl_nil]
      by_cases last : index = length
      · rw [if_pos (congrArg _ last)]
      · have other : (index : Int) ≠ length := by omega
        rw [if_neg other]
        exact ih (by omega)

section

variable {pb : PatternBuffer} {len : BitVec 8} {stream : List (BitVec 8)}

theorem write_slots (cells : Int → BitVec 8) (tail : Nat) (data : BitVec 8) :
    (fun (index : Nat) => if (index : Int) = tail then data else cells index) =
      Ring.write (fun (index : Nat) => cells index) tail data := by
  funext index
  simp only [Ring.write, Int.ofNat_inj]

theorem Slides.push (slides : Slides pb len stream) (data : BitVec 8) :
    Slides (patternBufferPush pb data) len (stream ++ [data]) := by
  obtain ⟨sized, ⟨cells, tail, buffer, at_, inside, contents⟩, head, _⟩ := slides
  have positive : 1 ≤ len.toNat := by omega
  have size : pb.length = (len.toNat : Int) := by rw [PatternBuffer.length, sized]
  simp only [patternBufferPush, buffer]
  refine ⟨sized, ⟨_, Ring.next len.toNat tail, rfl, ?_, Ring.next_lt inside, ?_⟩, ?_, ?_⟩
  · simp only [at_, size]
    exact tmod_next inside
  · simp only [at_]
    rw [write_slots, Ring.contents_rotate inside, contents, window_append _ _ _ positive]
  · have index : pb.head = ((pb.head.toNat : Nat) : Int) := by omega
    have below : pb.head.toNat < len.toNat := by omega
    have next := Ring.next_lt below
    simp only [PatternBuffer.length, sized]
    rw [index, tmod_next below]
    omega
  · have first := head_window len.toNat stream data positive
    obtain ⟨others, more⟩ : ∃ others, len.toNat = others + 1 := ⟨len.toNat - 1, by omega⟩
    rw [more] at contents inside first
    rw [← contents, Ring.contents_succ inside (Nat.lt_succ_self others), List.head?_cons] at first
    rw [more, at_]
    exact Option.some.inj first

theorem reset_slides (pb : PatternBuffer) {cells : Int → BitVec 8} (buffer : pb.buffer = some cells)
    (positive : 1 ≤ pb.len.toNat) :
    ∃ start, patternBufferResetBuffer pb = some start ∧ start.pattern = pb.pattern ∧
      Slides start pb.len [] := by
  refine ⟨_, congrArg _ buffer, rfl, rfl, ?_, ?_, rfl⟩
  · refine ⟨_, pb.len.toNat - 1, rfl, ?_, by omega, ?_⟩
    · simp only [PatternBuffer.length]
      omega
    · apply List.ext_getElem
      · simp [window]
      · intro index within _
        simp only [Ring.length_contents] at within
        rw [Ring.getElem_contents, zeroed_eq cells (Ring.place_lt (by omega) within)]
        simp [window]
  · simp only [PatternBuffer.length]
    omega

theorem push_pattern (pb : PatternBuffer) (data : BitVec 8) :
    (patternBufferPush pb data).pattern = pb.pattern := by
  unfold patternBufferPush
  split <;> rfl

theorem Slides.pushes (slides : Slides pb len stream) (more : List (BitVec 8)) :
    Slides (more.foldl patternBufferPush pb) len (stream ++ more) ∧
      (more.foldl patternBufferPush pb).pattern = pb.pattern := by
  induction more generalizing pb stream with
  | nil => exact ⟨by rwa [List.append_nil], rfl⟩
  | cons data more ih =>
      obtain ⟨slid, pattern⟩ := ih (slides.push data)
      rw [List.append_assoc] at slid
      exact ⟨slid, pattern.trans (push_pattern pb data)⟩

theorem Slides.check (slides : Slides pb len stream) :
    patternBufferCheckPattern pb =
      some (decide (window len.toNat stream = pb.patternBytes.reverse)) := by
  obtain ⟨sized, ⟨cells, tail, buffer, at_, inside, contents⟩, _, _⟩ := slides
  rw [patternBufferCheckPattern, buffer, Option.map_some, Option.some.injEq, Bool.eq_iff_iff,
    decide_eq_true_eq, List.all_eq_true, ← contents]
  have slot (i : Nat) (within : i < len.toNat) :
      (pb.tail + i).tmod pb.length = (Ring.place len.toNat tail i : Int) := by
    rw [at_, PatternBuffer.length, sized]
    exact tmod_place inside (Nat.le_of_lt within)
  have byte (i : Nat) (within : i < len.toNat) :
      pb.pattern (pb.length - i - 1) = pb.pattern ((len.toNat - 1 - i : Nat) : Int) := by
    rw [PatternBuffer.length, sized]
    congr 1
    omega
  constructor
  · intro same
    apply List.ext_getElem
    · simp [PatternBuffer.patternBytes, sized]
    · intro i within _
      rw [Ring.length_contents] at within
      have equal := same i (List.mem_range.mpr (sized ▸ within))
      rw [beq_iff_eq, slot i within, byte i within] at equal
      simpa [PatternBuffer.patternBytes, sized] using equal
  · intro same i below
    have within : i < len.toNat := sized ▸ List.mem_range.mp below
    have equal := List.getElem_of_eq same (by simpa using within)
    rw [beq_iff_eq, slot i within, byte i within]
    simpa [PatternBuffer.patternBytes, sized] using equal

theorem Slides.tail_lt (slides : Slides pb len stream) : 0 ≤ pb.tail ∧ pb.tail < pb.length := by
  obtain ⟨sized, ⟨_, tail, _, at_, inside, _⟩, _, _⟩ := slides
  rw [at_, PatternBuffer.length, sized]
  omega

end

structure Matches (pb : PatternBuffer) (pattern stream : List (BitVec 8)) : Prop where
  head_lt : 0 ≤ pb.head ∧ pb.head < pattern.length
  tail_lt : 0 ≤ pb.tail ∧ pb.tail < pattern.length
  payload : pb.payload = pushedBefore pattern.length stream
  check : patternBufferCheckPattern pb =
    some (decide (window pattern.length stream = pattern.reverse))

/-- After a reset the buffer finds its pattern in exactly the streams that end with it, and hands
out the bytes in the order they came in. -/
theorem patternBuffer_matches (pb : PatternBuffer) {cells : Int → BitVec 8}
    (buffer : pb.buffer = some cells) (positive : 1 ≤ pb.len.toNat) (stream : List (BitVec 8)) :
    ∃ start, patternBufferResetBuffer pb = some start ∧
      Matches (stream.foldl patternBufferPush start) pb.patternBytes stream := by
  obtain ⟨start, reset, pattern, slides⟩ := reset_slides pb buffer positive
  obtain ⟨slid, kept⟩ := slides.pushes stream
  rw [List.nil_append] at slid
  have length : pb.patternBytes.length = pb.len.toNat := by simp [PatternBuffer.patternBytes]
  have bytes : (stream.foldl patternBufferPush start).patternBytes = pb.patternBytes := by
    rw [PatternBuffer.patternBytes, kept, pattern, slid.len_eq, PatternBuffer.patternBytes]
  have size : (stream.foldl patternBufferPush start).length = pb.patternBytes.length := by
    rw [PatternBuffer.length, slid.len_eq, length]
  refine ⟨start, reset, size ▸ slid.head_lt, size ▸ slid.tail_lt, length ▸ slid.payload, ?_⟩
  rw [slid.check, bytes, length]

theorem patternBuffer_matches_two :
    ∃ start, patternBufferResetBuffer ⟨some fun _ => 7, 2, 1, 0, fun i => i, 0, 0⟩ = some start ∧
      Matches ([5, 1, 0].foldl patternBufferPush start) [0, 1] [5, 1, 0] :=
  patternBuffer_matches ⟨some fun _ => 7, 2, 1, 0, fun i => i, 0, 0⟩ rfl (by decide) [5, 1, 0]

end Atalanta.SmokeTests
