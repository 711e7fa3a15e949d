/-! Memories written piece by piece: what an address holds after all pieces is decided by the last
piece that covers it. -/

namespace Overlay

variable {α β : Type}

structure Piece (α β : Type) where
  covers : α → Bool
  value : α → β

def write (memory : α → β) (piece : Piece α β) : α → β :=
  fun place => if piece.covers place then piece.value place else memory place

theorem foldl_write_free (pieces : List (Piece α β)) (memory : α → β) {place : α}
    (free : ∀ piece ∈ pieces, piece.covers place = false) :
    pieces.foldl write memory place = memory place := by
  induction pieces generalizing memory with
  | nil => rfl
  | cons first rest ih =>
      rw [List.foldl_cons, ih (write memory first) fun piece inside =>
        free piece (List.mem_cons_of_mem first inside)]
      simp [write, free first (List.mem_cons_self ..)]

theorem foldl_write_last (before after : List (Piece α β)) (memory : α → β) {piece : Piece α β}
    {place : α} (covered : piece.covers place = true)
    (free : ∀ later ∈ after, later.covers place = false) :
    (before ++ piece :: after).foldl write memory place = piece.value place := by
  rw [List.foldl_append, List.foldl_cons, foldl_write_free after _ free]
  simp [write, covered]

end Overlay
