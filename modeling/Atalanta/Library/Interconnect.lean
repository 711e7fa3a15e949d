import Mathlib

/-! Address-decoded interconnects over arbitrary addresses, ports and nets: rule tables,
and the net that a request ends at when every net passes it on to at most one other. -/

namespace Interconnect

variable {α π β ε : Type}

/-- The addresses from `start` up to, and without, `stop`; zero stands for the top. -/
structure Range (α : Type) where
  start : α
  stop : α
deriving DecidableEq, Repr

structure Rule (α π : Type) extends Range α where
  idx : π
deriving DecidableEq, Repr

section Rules

variable [LinearOrder α] [Zero α]

def Range.Contains (range : Range α) (addr : α) : Prop :=
  range.start ≤ addr ∧ (addr < range.stop ∨ range.stop = 0)

instance (range : Range α) (addr : α) : Decidable (range.Contains addr) :=
  inferInstanceAs (Decidable (_ ∧ _))

def Range.Apart (left right : Range α) : Prop :=
  (left.stop ≠ 0 ∧ left.stop ≤ right.start) ∨ (right.stop ≠ 0 ∧ right.stop ≤ left.start)

instance (left right : Range α) : Decidable (left.Apart right) :=
  inferInstanceAs (Decidable (_ ∨ _))

instance : Std.Symm (fun left right : Range α => left.Apart right) :=
  ⟨fun _ _ apart => Or.symm apart⟩

instance : Std.Symm (fun left right : Rule α π => left.toRange.Apart right.toRange) :=
  ⟨fun _ _ apart => Or.symm apart⟩

theorem Range.Contains.lt_stop {range : Range α} {addr : α} (inside : range.Contains addr)
    (bounded : range.stop ≠ 0) : addr < range.stop :=
  inside.2.resolve_right bounded

theorem Range.Apart.not_both {left right : Range α} (apart : left.Apart right) {addr : α}
    (inLeft : left.Contains addr) : ¬right.Contains addr := by
  intro inRight
  rcases apart with ⟨bounded, before⟩ | ⟨bounded, before⟩
  · exact absurd (inLeft.lt_stop bounded) (not_lt.mpr (le_trans before inRight.1))
  · exact absurd (inRight.lt_stop bounded) (not_lt.mpr (le_trans before inLeft.1))

/-- What a decoder promises: a rule that contains the address, and agrees with every other
rule that does, names the port; without a rule it is the fallback. -/
structure Decodes (decode : List (Rule α π) → α → π) (fallback : π) : Prop where
  hit : ∀ (rules : List (Rule α π)) (rule : Rule α π) (addr : α), rule ∈ rules →
    rule.Contains addr → (∀ other ∈ rules, other.Contains addr → other.idx = rule.idx) →
    decode rules addr = rule.idx
  miss : ∀ (rules : List (Rule α π)) (addr : α), (∀ rule ∈ rules, ¬rule.Contains addr) →
    decode rules addr = fallback

theorem Decodes.of_apart {decode : List (Rule α π) → α → π} {fallback : π}
    (decodes : Decodes decode fallback) {rules : List (Rule α π)}
    (apart : rules.Pairwise fun left right => left.toRange.Apart right.toRange)
    {rule : Rule α π} {addr : α} (listed : rule ∈ rules) (inside : rule.Contains addr) :
    decode rules addr = rule.idx := by
  apply decodes.hit rules rule addr listed inside
  intro other member contains
  by_cases same : rule = other
  · rw [same]
  · have disjoint := apart.forall listed member same
    exact absurd contains (disjoint.not_both inside)

def firstMatch (fallback : π) : List (Rule α π) → α → π
  | [], _ => fallback
  | rule :: rest, addr => if rule.Contains addr then rule.idx else firstMatch fallback rest addr

theorem firstMatch_decodes (fallback : π) :
    Decodes (firstMatch fallback : List (Rule α π) → α → π) fallback := by
  constructor
  · intro rules rule addr listed inside agree
    induction rules with
    | nil => cases listed
    | cons first rest ih =>
        simp only [firstMatch]
        split
        · rename_i found
          exact agree first List.mem_cons_self found
        · rename_i missed
          rcases List.mem_cons.mp listed with same | later
          · exact absurd (same ▸ inside) missed
          · exact ih later fun other member => agree other (List.mem_cons_of_mem first member)
  · intro rules addr none
    induction rules with
    | nil => rfl
    | cons first rest ih =>
        simp only [firstMatch]
        rw [if_neg (none first List.mem_cons_self)]
        exact ih fun rule member => none rule (List.mem_cons_of_mem first member)

end Rules

/-- Where the request on a net goes: another net, the device on it, or, when nothing is
connected, nowhere. -/
abbrev Hop (β ε : Type) := Option (β ⊕ ε)

inductive Reaches (hop : β → Hop β ε) : β → ε → Prop
  | served {net : β} {device : ε} : hop net = some (.inr device) → Reaches hop net device
  | joined {net next : β} {device : ε} : hop net = some (.inl next) → Reaches hop next device →
      Reaches hop net device

variable {hop : β → Hop β ε} {net next : β} {device other : ε}

theorem reaches_iff :
    Reaches hop net device ↔
      hop net = some (.inr device) ∨
        ∃ next, hop net = some (.inl next) ∧ Reaches hop next device := by
  constructor
  · intro reaches
    cases reaches with
    | served drives => exact .inl drives
    | joined drives rest => exact .inr ⟨_, drives, rest⟩
  · rintro (drives | ⟨next, drives, rest⟩)
    · exact .served drives
    · exact .joined drives rest

theorem reaches_served (drives : hop net = some (.inr device)) :
    Reaches hop net other ↔ other = device := by
  rw [reaches_iff, drives]
  simp [eq_comm]

theorem reaches_joined (drives : hop net = some (.inl next)) :
    Reaches hop net other ↔ Reaches hop next other := by
  rw [reaches_iff, drives]
  simp

theorem not_reaches (undriven : hop net = none) : ¬Reaches hop net device := by
  rw [reaches_iff, undriven]
  simp

theorem Reaches.unique (first : Reaches hop net device) (second : Reaches hop net other) :
    device = other := by
  induction first with
  | served drives => exact ((reaches_served drives).mp second).symm
  | joined drives _ ih => exact ih ((reaches_joined drives).mp second)

end Interconnect
