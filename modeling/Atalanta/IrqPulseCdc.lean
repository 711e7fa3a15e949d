import Atalanta.Library.Clocked
import Atalanta.Library.Sampling
import Mathlib.Data.Nat.Log

/-! The interrupt pulse synchroniser `irq_pulse_cdc.sv`. A counter in the fast domain
stretches a one-cycle pulse; a register in the slow domain samples the stretched pulse.
A cycle of the model is a cycle of `clk_a_i`; the input says whether `clk_b_i` rises
together with the edge that ends it. -/

namespace Atalanta.IrqPulseCdc

open Clocked Sampling

def cntWidth (divMax : Nat) : Nat := Nat.clog 2 divMax

structure State (divMax : Nat) where
  cntQ : BitVec (cntWidth divMax)
  pulseO : Bool

structure Input where
  pulseI : Bool
  clkB : Bool

-- counter and divisor are compared at the wider of their two widths
def cntD {divMax : Nat} (divisorI : BitVec divMax) (pulseI : Bool)
    (cntQ : BitVec (cntWidth divMax)) : BitVec (cntWidth divMax) :=
  if pulseI then 1
  else if cntQ.toNat = divisorI.toNat then 0
  else if cntQ ≠ 0 then cntQ + 1
  else 0

-- evaluated in at least 32 bits, then truncated to `DivMax` bits
def decode {divMax : Nat} (cntQ : BitVec (cntWidth divMax)) : BitVec divMax :=
  (BitVec.ofNat (max 32 divMax) (2 ^ cntQ.toNat) - 1).setWidth divMax

def pulseD {divMax : Nat} (cntQ : BitVec (cntWidth divMax)) : Bool :=
  decide (decode cntQ ≠ 0)

def circuit {divMax : Nat} (divisorI : BitVec divMax) : Circuit (State divMax) Input Bool where
  reset := ⟨0, false⟩
  next state input :=
    { cntQ := cntD divisorI input.pulseI state.cntQ
      pulseO := if input.clkB then pulseD state.cntQ else state.pulseO }
  out state _ := state.pulseO

def drive (divisor phase : Nat) (pulse : Nat → Bool) (cycle : Nat) : Input where
  pulseI := pulse cycle
  clkB := decide (Edge divisor phase cycle)

/-- The `clk_b` cycles with a high output, each named by the edge that starts it. -/
def outputs {divMax : Nat} (divisorI : BitVec divMax) (phase : Nat) (pulse : Nat → Bool) :
    Set Nat :=
  { edge | Edge divisorI.toNat phase edge ∧
    ((circuit divisorI).run (drive divisorI.toNat phase pulse) (edge + 1)).pulseO = true }

def inputs (pulse : Nat → Bool) : Set Nat := { cycle | pulse cycle = true }

/-- Cycles for which the counter stretches a pulse: it stops at the divisor, and it wraps
at its own width. -/
def stretch {divMax : Nat} (divisorI : BitVec divMax) : Nat :=
  min divisorI.toNat (2 ^ cntWidth divMax - 1)

theorem stretch_le {divMax : Nat} (divisorI : BitVec divMax) :
    stretch divisorI ≤ divisorI.toNat :=
  Nat.min_le_left _ _

theorem two_dvd_two_pow {width : Nat} (positive : 0 < width) : 2 ∣ 2 ^ width :=
  dvd_pow_self 2 (by omega)

theorem pulseD_iff {divMax : Nat} (positive : 0 < divMax) (cntQ : BitVec (cntWidth divMax)) :
    pulseD cntQ = true ↔ cntQ ≠ 0 := by
  simp only [pulseD, decide_eq_true_eq]
  constructor
  · rintro pattern rfl
    apply pattern
    simp [decode]
  · intro counting zero
    have steps : 0 < cntQ.toNat := by
      rw [Nat.pos_iff_ne_zero]
      exact fun none => counting (BitVec.eq_of_toNat_eq none)
    have widthEven : 2 ∣ 2 ^ max 32 divMax := two_dvd_two_pow (by omega)
    have powerEven : 2 ∣ 2 ^ cntQ.toNat % 2 ^ max 32 divMax :=
      (Nat.dvd_mod_iff widthEven).mpr (two_dvd_two_pow steps)
    have wide : 1 < 2 ^ max 32 divMax := Nat.one_lt_two_pow (by omega)
    have odd : (decode cntQ).toNat % 2 = 1 := by
      rw [decode, BitVec.toNat_setWidth, Nat.mod_mod_of_dvd _ (two_dvd_two_pow positive),
        BitVec.toNat_sub, Nat.mod_mod_of_dvd _ widthEven, BitVec.toNat_ofNat]
      simp only [BitVec.ofNat_eq_ofNat, BitVec.toNat_ofNat, Nat.mod_eq_of_lt wide]
      omega
    rw [zero] at odd
    simp at odd

/-- What the counter holds at the start of a cycle: the age of the last pulse while its
window is open, and zero once every window has closed. -/
def Counting {divMax : Nat} (divisorI : BitVec divMax) (pulse : Nat → Bool) (cycle : Nat)
    (cntQ : BitVec (cntWidth divMax)) : Prop :=
  (∃ last ∈ inputs pulse, last < cycle ∧ cycle ≤ last + stretch divisorI ∧
    cntQ.toNat = cycle - last) ∨
  (cntQ = 0 ∧ ∀ last ∈ inputs pulse, last < cycle → last + stretch divisorI < cycle)

theorem one_lt_two_pow_cntWidth {divMax : Nat} (wide : 2 ≤ divMax) :
    1 < 2 ^ cntWidth divMax :=
  Nat.one_lt_two_pow (by
    have := Nat.clog_pos (by omega : 1 < 2) wide
    unfold cntWidth
    omega)

theorem cntD_running {divMax : Nat} (divisorI : BitVec divMax)
    (cntQ : BitVec (cntWidth divMax)) (unfinished : cntQ.toNat ≠ divisorI.toNat)
    (running : cntQ ≠ 0) : cntD divisorI false cntQ = cntQ + 1 := by
  simp only [cntD, Bool.false_eq_true, if_false, if_neg unfinished, if_pos running]

theorem counting_open_next {divMax : Nat} (wide : 2 ≤ divMax) (divisorI : BitVec divMax)
    (pulse : Nat → Bool) (cycle last : Nat) (cntQ : BitVec (cntWidth divMax))
    (member : last ∈ inputs pulse) (before : last < cycle)
    (within : cycle ≤ last + stretch divisorI) (age : cntQ.toNat = cycle - last)
    (latest : ∀ other ∈ inputs pulse, other < cycle + 1 → other ≤ last) :
    Counting divisorI pulse (cycle + 1) (cntD divisorI false cntQ) := by
  have range := one_lt_two_pow_cntWidth wide
  have below := cntQ.isLt
  have bound : stretch divisorI = min divisorI.toNat (2 ^ cntWidth divMax - 1) := rfl
  by_cases stops : cntQ.toNat = divisorI.toNat
  · refine Or.inr ⟨by simp [cntD, stops], fun other otherMember otherBefore => ?_⟩
    have := latest other otherMember otherBefore
    omega
  · have running : cntQ ≠ 0 := by
      rintro rfl
      simp at age
      omega
    rw [cntD_running divisorI cntQ stops running]
    by_cases wraps : cntQ.toNat + 1 = 2 ^ cntWidth divMax
    · refine Or.inr ⟨?_, fun other otherMember otherBefore => ?_⟩
      · apply BitVec.eq_of_toNat_eq
        simp [BitVec.toNat_add, Nat.mod_eq_of_lt range, wraps]
      · have := latest other otherMember otherBefore
        omega
    · refine Or.inl ⟨last, member, by omega, by omega, ?_⟩
      rw [BitVec.toNat_add]
      simp only [BitVec.ofNat_eq_ofNat, BitVec.toNat_ofNat, Nat.mod_eq_of_lt range]
      rw [Nat.mod_eq_of_lt (by omega)]
      omega

theorem counting_next {divMax : Nat} (wide : 2 ≤ divMax) (divisorI : BitVec divMax)
    (divides : 0 < divisorI.toNat) (pulse : Nat → Bool)
    (spaced : Spaced divisorI.toNat (inputs pulse)) (cycle : Nat)
    (cntQ : BitVec (cntWidth divMax)) (counting : Counting divisorI pulse cycle cntQ) :
    Counting divisorI pulse (cycle + 1) (cntD divisorI (pulse cycle) cntQ) := by
  have range := one_lt_two_pow_cntWidth wide
  cases pulsing : pulse cycle with
  | true =>
      have opens : 1 ≤ stretch divisorI := le_min divides (by omega)
      refine Or.inl ⟨cycle, pulsing, by omega, by omega, ?_⟩
      simp [cntD, Nat.mod_eq_of_lt range]
  | false =>
      -- the pulses before this cycle are the pulses before the next one
      have earlier : ∀ last ∈ inputs pulse, last < cycle + 1 → last < cycle := by
        intro last member before
        have different : last ≠ cycle := by
          rintro rfl
          simp [inputs, pulsing] at member
        omega
      rcases counting with ⟨last, member, before, within, age⟩ | ⟨zero, closed⟩
      · refine counting_open_next wide divisorI pulse cycle last cntQ member before within age ?_
        intro other otherMember otherBefore
        by_contra later
        have apart := spaced last member other otherMember (by omega)
        have := earlier other otherMember otherBefore
        have := stretch_le divisorI
        omega
      · refine Or.inr ⟨?_, fun last member before => ?_⟩
        · subst zero
          simp only [cntD, Bool.false_eq_true, if_false]
          split <;> simp
        · have := closed last member (earlier last member before)
          omega

theorem run_counting {divMax : Nat} (wide : 2 ≤ divMax) (divisorI : BitVec divMax)
    (divides : 0 < divisorI.toNat) (phase : Nat) (pulse : Nat → Bool)
    (spaced : Spaced divisorI.toNat (inputs pulse)) (cycle : Nat) :
    Counting divisorI pulse cycle
      ((circuit divisorI).run (drive divisorI.toNat phase pulse) cycle).cntQ := by
  induction cycle with
  | zero => exact Or.inr ⟨rfl, fun last _ before => absurd before (by omega)⟩
  | succ cycle ih => exact counting_next wide divisorI divides pulse spaced cycle _ ih

theorem counting_ne_zero_iff {divMax : Nat} (divisorI : BitVec divMax) (pulse : Nat → Bool)
    (cycle : Nat) (cntQ : BitVec (cntWidth divMax))
    (counting : Counting divisorI pulse cycle cntQ) :
    cntQ ≠ 0 ↔ ∃ last ∈ inputs pulse, last < cycle ∧ cycle ≤ last + stretch divisorI := by
  constructor
  · intro running
    rcases counting with ⟨last, member, before, within, _⟩ | ⟨zero, _⟩
    · exact ⟨last, member, before, within⟩
    · exact absurd zero running
  · rintro ⟨last, member, before, within⟩ zero
    rcases counting with ⟨_, _, earlier, _, age⟩ | ⟨_, closed⟩
    · rw [zero] at age
      simp at age
      omega
    · have := closed last member before
      omega

theorem outputs_eq_sampled {divMax : Nat} (wide : 2 ≤ divMax) (divisorI : BitVec divMax)
    (divides : 0 < divisorI.toNat) (phase : Nat) (pulse : Nat → Bool)
    (spaced : Spaced divisorI.toNat (inputs pulse)) :
    outputs divisorI phase pulse =
      sampled divisorI.toNat phase (stretch divisorI) (inputs pulse) := by
  ext edge
  have counting := run_counting wide divisorI divides phase pulse spaced edge
  refine and_congr_right fun rises => ?_
  rw [Circuit.run_succ, ← counting_ne_zero_iff divisorI pulse edge _ counting,
    ← pulseD_iff (by omega)]
  simp [circuit, drive, rises]

theorem outputs_encard_iff {divMax : Nat} (wide : 2 ≤ divMax) (divisorI : BitVec divMax)
    {phase : Nat} (inPeriod : phase < divisorI.toNat) {pulse : Nat → Bool}
    (spaced : Spaced divisorI.toNat (inputs pulse)) (finite : (inputs pulse).Finite) :
    (outputs divisorI phase pulse).encard = (inputs pulse).encard ↔
      ∀ cycle ∈ inputs pulse,
        nextEdge divisorI.toNat phase cycle ≤ cycle + (2 ^ cntWidth divMax - 1) := by
  have divides : 0 < divisorI.toNat := by omega
  rw [outputs_eq_sampled wide divisorI divides phase pulse spaced,
    sampled_encard_eq_iff inPeriod (stretch_le divisorI) spaced finite]
  refine forall₂_congr fun cycle _ => ?_
  have within := nextEdge_le phase divides cycle
  unfold stretch
  omega

def pulseAt (time cycle : Nat) : Bool := decide (cycle = time)

theorem inputs_pulseAt (time : Nat) : inputs (pulseAt time) = {time} := by
  ext cycle
  simp [inputs, pulseAt]

theorem pulseAt_spaced (period time : Nat) : Spaced period (inputs (pulseAt time)) := by
  rw [inputs_pulseAt]
  rintro first rfl second rfl order
  omega

theorem pulse_lost {divMax : Nat} (wide : 2 ≤ divMax) (divisorI : BitVec divMax)
    (large : 2 ^ cntWidth divMax ≤ divisorI.toNat) :
    (outputs divisorI 0 (pulseAt 0)).encard ≠ (inputs (pulseAt 0)).encard := by
  have range := one_lt_two_pow_cntWidth wide
  intro counted
  rw [outputs_encard_iff wide divisorI (by omega) (pulseAt_spaced _ 0)
    (by rw [inputs_pulseAt]; exact Set.finite_singleton 0)] at counted
  have early := counted 0 (by simp [inputs, pulseAt])
  simp only [nextEdge, Nat.zero_add, Nat.mod_eq_of_lt (show 1 < divisorI.toNat by omega)] at early
  rw [Nat.mod_eq_of_lt (show divisorI.toNat - 1 < divisorI.toNat by omega)] at early
  omega

/-- No pulse is lost or duplicated, for any phase and any spaced train, exactly for the
divisors that the counter can hold; a larger divisor counts a train right exactly when
the slow clock rises soon enough after each of its pulses. -/
theorem pulses_counted_iff {divMax : Nat} (wide : 2 ≤ divMax) (divisorI : BitVec divMax)
    (divides : 0 < divisorI.toNat) :
    ((∀ phase < divisorI.toNat, ∀ pulse, Spaced divisorI.toNat (inputs pulse) →
        (outputs divisorI phase pulse).encard = (inputs pulse).encard) ↔
      divisorI.toNat < 2 ^ cntWidth divMax) ∧
    ∀ phase < divisorI.toNat, ∀ pulse, Spaced divisorI.toNat (inputs pulse) →
      (inputs pulse).Finite →
      ((outputs divisorI phase pulse).encard = (inputs pulse).encard ↔
        ∀ cycle ∈ inputs pulse,
          nextEdge divisorI.toNat phase cycle ≤ cycle + (2 ^ cntWidth divMax - 1)) := by
  refine ⟨⟨?_, ?_⟩, ?_⟩
  · intro counted
    by_contra large
    exact pulse_lost wide divisorI (by omega) (counted 0 divides _ (pulseAt_spaced _ 0))
  · intro small phase inPeriod pulse spaced
    have full : stretch divisorI = divisorI.toNat := by
      unfold stretch
      omega
    rw [outputs_eq_sampled wide divisorI divides phase pulse spaced, full]
    exact sampled_encard_of_full inPeriod spaced
  · intro phase inPeriod pulse spaced finite
    exact outputs_encard_iff wide divisorI inPeriod spaced finite

theorem cntWidth_four : cntWidth 4 = 2 := Nat.clog_pow 2 2 (by decide)

theorem pulses_counted_three :
    (outputs 3#4 1 (pulseAt 1)).encard = (inputs (pulseAt 1)).encard :=
  (pulses_counted_iff (by decide) 3#4 (by decide)).1.mpr (by simp [cntWidth_four]) 1
    (by decide) _ (pulseAt_spaced _ 1)

theorem pulses_counted_fails :
    ¬∀ divisorI : BitVec 4, 0 < divisorI.toNat → ∀ phase < divisorI.toNat, ∀ pulse,
      Spaced divisorI.toNat (inputs pulse) →
        (outputs divisorI phase pulse).encard = (inputs pulse).encard := by
  intro counted
  exact pulse_lost (by decide) 4#4 (by simp [cntWidth_four])
    (counted 4#4 (by decide) 0 (by decide) _ (pulseAt_spaced _ 0))

end Atalanta.IrqPulseCdc
