/-! Request channels and two-phase accesses, over an arbitrary payload. A channel
transfers its payload in the cycles in which `valid` meets `ready`; a two-phase
access first selects the completer and then enables it until it is ready. -/

namespace Handshake

variable {α : Type}

structure Beat (α : Type) where
  valid : Bool
  ready : Bool
  payload : α

def Beat.fires (beat : Beat α) : Bool := beat.valid && beat.ready

/-- An offer that is not taken is made again, unchanged, in the next cycle. -/
def Held (trace : Nat → Beat α) : Prop :=
  ∀ cycle, (trace cycle).valid = true → (trace cycle).ready = false →
    (trace (cycle + 1)).valid = true ∧ (trace (cycle + 1)).payload = (trace cycle).payload

def transfers (trace : Nat → Beat α) : Nat → List α
  | 0 => []
  | cycle + 1 =>
    if (trace cycle).fires then transfers trace cycle ++ [(trace cycle).payload]
    else transfers trace cycle

theorem transfers_congr {left right : Nat → Beat α}
    (together : ∀ cycle, (left cycle).fires = (right cycle).fires)
    (payloads : ∀ cycle, (left cycle).fires = true →
      (left cycle).payload = (right cycle).payload) (cycles : Nat) :
    transfers left cycles = transfers right cycles := by
  induction cycles with
  | zero => rfl
  | succ cycle ih =>
      simp only [transfers, ih, ← together cycle]
      split
      · rename_i fires
        rw [payloads cycle fires]
      · rfl

structure Access (α : Type) where
  select : Bool
  enable : Bool
  ready : Bool
  payload : α

def Access.beat (access : Access α) : Beat α where
  valid := access.select && access.enable
  ready := access.ready
  payload := access.payload

/-- The cycle is directly preceded by a cycle that selects the completer with the same
payload: the setup cycle, or a wait cycle of the same access. -/
def Prepared (trace : Nat → Access α) (cycle : Nat) : Prop :=
  ∃ before, cycle = before + 1 ∧ (trace before).select = true ∧
    (trace before).payload = (trace cycle).payload ∧
    ((trace before).enable = false ∨
      ((trace before).enable = true ∧ (trace before).ready = false))

end Handshake
