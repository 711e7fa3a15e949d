import Atalanta.Library.Handshake

/-! Channels that deliver what they are given sooner or later: the transfers of a trace that
settle on a list, and buffers that keep the order of what passes through them. -/

namespace Elastic

open Handshake

variable {α β : Type}

theorem transfers_succ_of_fires (trace : Nat → Beat α) {cycle : Nat}
    (fires : (trace cycle).fires = true) :
    transfers trace (cycle + 1) = transfers trace cycle ++ [(trace cycle).payload] := by
  simp [transfers, fires]

theorem transfers_succ_of_idle (trace : Nat → Beat α) {cycle : Nat}
    (idle : (trace cycle).fires = false) :
    transfers trace (cycle + 1) = transfers trace cycle := by
  simp [transfers, idle]

theorem transfers_length_succ (trace : Nat → Beat α) (cycle : Nat) :
    (transfers trace (cycle + 1)).length =
      (transfers trace cycle).length + (trace cycle).fires.toNat := by
  cases fires : (trace cycle).fires with
  | false => rw [transfers_succ_of_idle trace fires, Bool.toNat_false, Nat.add_zero]
  | true =>
      rw [transfers_succ_of_fires trace fires, List.length_append, List.length_singleton,
        Bool.toNat_true]

theorem transfers_extend (trace : Nat → Beat α) {early late : Nat} (order : early ≤ late) :
    transfers trace early <+: transfers trace late := by
  induction late with
  | zero =>
      obtain rfl : early = 0 := by omega
      exact List.prefix_refl _
  | succ late ih =>
      by_cases same : early = late + 1
      · subst same
        exact List.prefix_refl _
      · refine (ih (by omega)).trans ?_
        simp only [transfers]
        split
        · exact List.prefix_append _ _
        · exact List.prefix_refl _

theorem transfers_length_le (trace : Nat → Beat α) {early late : Nat} (order : early ≤ late) :
    (transfers trace early).length ≤ (transfers trace late).length :=
  (transfers_extend trace order).length_le

/-- From some cycle on, the transfers so far are the list. -/
def Settles (trace : Nat → Beat α) (list : List α) : Prop :=
  ∃ last, ∀ cycle, last ≤ cycle → transfers trace cycle = list

theorem Settles.unique {trace : Nat → Beat α} {left right : List α}
    (settlesLeft : Settles trace left) (settlesRight : Settles trace right) : left = right := by
  obtain ⟨lastLeft, isLeft⟩ := settlesLeft
  obtain ⟨lastRight, isRight⟩ := settlesRight
  rw [← isLeft (max lastLeft lastRight) (Nat.le_max_left ..),
    isRight (max lastLeft lastRight) (Nat.le_max_right ..)]

theorem Settles.of_never {trace : Nat → Beat α} (never : ∀ cycle, (trace cycle).fires = false) :
    Settles trace [] := by
  refine ⟨0, fun cycle _ => ?_⟩
  induction cycle with
  | zero => rfl
  | succ cycle ih => rw [transfers_succ_of_idle trace (never cycle), ih (Nat.zero_le cycle)]

/-- A trace whose transfers are always a prefix of the list, and grow as long as something is
missing, settles on the list. -/
theorem Settles.of_progress {trace : Nat → Beat α} {list : List α}
    (within : ∀ cycle, transfers trace cycle <+: list)
    (progress : ∀ cycle, (transfers trace cycle).length < list.length →
      ∃ later, (transfers trace cycle).length < (transfers trace later).length) :
    Settles trace list := by
  have reached : ∀ missing cycle, list.length ≤ (transfers trace cycle).length + missing →
      ∃ last, transfers trace last = list := by
    intro missing
    induction missing with
    | zero =>
        intro cycle enough
        exact ⟨cycle, (within cycle).eq_of_length_le enough⟩
    | succ missing ih =>
        intro cycle enough
        by_cases complete : list.length ≤ (transfers trace cycle).length
        · exact ⟨cycle, (within cycle).eq_of_length_le complete⟩
        · obtain ⟨later, grown⟩ := progress cycle (by omega)
          exact ih later (by omega)
  obtain ⟨last, settled⟩ := reached list.length 0 (Nat.le_add_left ..)
  refine ⟨last, fun cycle order => ?_⟩
  have longer := transfers_extend trace order
  rw [settled] at longer
  exact (longer.eq_of_length_le (within cycle).length_le).symm

theorem grows_of_fires {trace : Nat → Beat α} {cycle later : Nat} (order : cycle ≤ later)
    (fires : (trace later).fires = true) :
    (transfers trace cycle).length < (transfers trace (later + 1)).length := by
  have grown := transfers_length_le trace order
  rw [transfers_succ_of_fires trace fires, List.length_append, List.length_singleton]
  omega

def Beat.map (change : α → β) (beat : Beat α) : Beat β where
  valid := beat.valid
  ready := beat.ready
  payload := change beat.payload

theorem transfers_map (change : α → β) (trace : Nat → Beat α) (cycle : Nat) :
    transfers (fun cycle => Beat.map change (trace cycle)) cycle =
      (transfers trace cycle).map change := by
  induction cycle with
  | zero => rfl
  | succ cycle ih =>
      let mapped cycle := Beat.map change (trace cycle)
      cases fires : (trace cycle).fires with
      | false => rw [transfers_succ_of_idle trace fires, transfers_succ_of_idle mapped fires, ih]
      | true =>
          rw [transfers_succ_of_fires trace fires, transfers_succ_of_fires mapped fires, ih,
            List.map_append]
          rfl

theorem Settles.map {trace : Nat → Beat α} {list : List α} (settles : Settles trace list)
    (change : α → β) :
    Settles (fun cycle => Beat.map change (trace cycle)) (list.map change) := by
  obtain ⟨last, settled⟩ := settles
  exact ⟨last, fun cycle order => by rw [transfers_map, settled cycle order]⟩

/-- What a trace offers one after the other are the items of the list. -/
def Offers (trace : Nat → Beat α) (list : List α) : Prop :=
  ∀ cycle, (trace cycle).fires = true →
    list[(transfers trace cycle).length]? = some (trace cycle).payload

theorem Offers.within {trace : Nat → Beat α} {list : List α} (offers : Offers trace list) :
    ∀ cycle, transfers trace cycle <+: list := by
  intro cycle
  induction cycle with
  | zero => exact List.nil_prefix
  | succ cycle ih =>
      cases fires : (trace cycle).fires with
      | false => rwa [transfers_succ_of_idle trace fires]
      | true =>
          rw [transfers_succ_of_fires trace fires]
          obtain ⟨rest, split⟩ := ih
          have next := offers cycle fires
          rw [← split, List.getElem?_append_right (Nat.le_refl _), Nat.sub_self] at next
          cases rest with
          | nil => cases next
          | cons item rest =>
              cases next
              exact ⟨rest, by rw [← split]; simp⟩

structure Buffer (α : Type) where
  State : Type
  reset : State
  next : State → (validI : Bool) → (dataI : α) → (readyI : Bool) → State
  readyO : State → Bool
  validO : State → Bool
  dataO : State → α

/-- The stage is a first-in first-out buffer of some capacity, which loses nothing. -/
structure Buffer.Lossless (buffer : Buffer α) (capacity : Nat)
    (contents : buffer.State → List α) : Prop where
  reset : contents buffer.reset = []
  readyO : ∀ state, buffer.readyO state = decide ((contents state).length < capacity)
  validO : ∀ state, buffer.validO state = !(contents state).isEmpty
  dataO : ∀ state first rest, contents state = first :: rest → buffer.dataO state = first
  next : ∀ state validI dataI readyI, contents (buffer.next state validI dataI readyI) =
    (if buffer.validO state && readyI then (contents state).tail else contents state) ++
      if validI && buffer.readyO state then [dataI] else []

def fifo (capacity : Nat) (T : Type) [Inhabited T] : Buffer T where
  State := List T
  reset := []
  next state validI dataI readyI :=
    (if !state.isEmpty && readyI then state.tail else state) ++
      if validI && decide (state.length < capacity) then [dataI] else []
  readyO state := decide (state.length < capacity)
  validO state := !state.isEmpty
  dataO state := state.headD default

theorem fifo_lossless (capacity : Nat) (T : Type) [Inhabited T] :
    (fifo capacity T).Lossless capacity id where
  reset := rfl
  readyO _ := rfl
  validO _ := rfl
  dataO state first rest held := by
    change state.headD default = first
    rw [show state = first :: rest from held]
    rfl
  next _ _ _ _ := rfl

section Runs

variable (buffer : Buffer α) (validI : Nat → Bool) (dataI : Nat → α) (readyI : Nat → Bool)
  (states : Nat → buffer.State)

structure Buffer.Runs : Prop where
  start : states 0 = buffer.reset
  step : ∀ cycle, states (cycle + 1) =
    buffer.next (states cycle) (validI cycle) (dataI cycle) (readyI cycle)

def Buffer.inBeat (cycle : Nat) : Beat α :=
  ⟨validI cycle, buffer.readyO (states cycle), dataI cycle⟩

def Buffer.outBeat (cycle : Nat) : Beat α :=
  ⟨buffer.validO (states cycle), readyI cycle, buffer.dataO (states cycle)⟩

variable {buffer validI dataI readyI states} {capacity : Nat} {contents : buffer.State → List α}

/-- What has gone in has come out or is still inside, in this order. -/
theorem Buffer.Lossless.conserves (lossless : buffer.Lossless capacity contents)
    (runs : buffer.Runs validI dataI readyI states) (cycle : Nat) :
    transfers (buffer.inBeat validI dataI states) cycle =
      transfers (buffer.outBeat readyI states) cycle ++ contents (states cycle) := by
  induction cycle with
  | zero => simp [transfers, runs.start, lossless.reset]
  | succ cycle ih =>
      rw [runs.step, lossless.next]
      have out : transfers (buffer.outBeat readyI states) (cycle + 1) ++
          (if buffer.validO (states cycle) && readyI cycle then (contents (states cycle)).tail
            else contents (states cycle)) =
          transfers (buffer.outBeat readyI states) cycle ++ contents (states cycle) := by
        cases taken : buffer.validO (states cycle) && readyI cycle with
        | false =>
            rw [transfers_succ_of_idle (buffer.outBeat readyI states) taken]
            rfl
        | true =>
            rw [transfers_succ_of_fires (buffer.outBeat readyI states) taken]
            have nonempty := (Bool.and_eq_true_iff.mp taken).1
            rw [lossless.validO] at nonempty
            cases held : contents (states cycle) with
            | nil => simp [held] at nonempty
            | cons first rest =>
                simp [Buffer.outBeat, lossless.dataO _ _ _ held]
      rw [← List.append_assoc, out, ← ih]
      cases entering : validI cycle && buffer.readyO (states cycle) with
      | false =>
          rw [transfers_succ_of_idle (buffer.inBeat validI dataI states) entering]
          simp
      | true =>
          rw [transfers_succ_of_fires (buffer.inBeat validI dataI states) entering]
          rfl

theorem Buffer.Lossless.length_le_one (lossless : buffer.Lossless capacity contents)
    (runs : buffer.Runs validI dataI readyI states) (taken : ∀ cycle, readyI cycle = true)
    (cycle : Nat) : (contents (states cycle)).length ≤ 1 := by
  induction cycle with
  | zero => simp [runs.start, lossless.reset]
  | succ cycle ih =>
      rw [runs.step, lossless.next, taken cycle, lossless.validO, List.length_append]
      have entering : (if validI cycle && buffer.readyO (states cycle) then [dataI cycle]
          else []).length ≤ 1 := by
        split <;> simp
      cases held : contents (states cycle) with
      | nil => simpa using entering
      | cons first rest =>
          rw [held] at ih
          simp at ih
          simpa [ih] using entering

/-- An output that is always taken gives in each cycle all that went in before. -/
theorem Buffer.Lossless.delivers_next (lossless : buffer.Lossless capacity contents)
    (runs : buffer.Runs validI dataI readyI states) (taken : ∀ cycle, readyI cycle = true)
    (cycle : Nat) :
    transfers (buffer.outBeat readyI states) (cycle + 1) =
      transfers (buffer.inBeat validI dataI states) cycle := by
  have short := lossless.length_le_one runs taken cycle
  have valid := lossless.validO (states cycle)
  rw [lossless.conserves runs cycle]
  cases held : contents (states cycle) with
  | nil =>
      have idle : (buffer.outBeat readyI states cycle).fires = false := by
        simp [Buffer.outBeat, Beat.fires, valid, held]
      rw [transfers_succ_of_idle _ idle, List.append_nil]
  | cons first rest =>
      obtain rfl : rest = [] := by
        rw [held] at short
        simpa using short
      have fires : (buffer.outBeat readyI states cycle).fires = true := by
        simp [Buffer.outBeat, Beat.fires, valid, held, taken cycle]
      rw [transfers_succ_of_fires _ fires]
      simp [Buffer.outBeat, lossless.dataO _ _ _ held]

end Runs

end Elastic
