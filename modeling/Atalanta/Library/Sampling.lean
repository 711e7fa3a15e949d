import Mathlib.Data.Set.Card

/-! Sampling of stretched pulses by a slower periodic clock. Time is counted in ticks of
the fast clock. A pulse at a tick opens a window over the ticks that follow it; the
slow clock has an edge at every tick that is `phase` modulo its period. -/

namespace Sampling

variable {period phase stretch : Nat} {pulses : Set Nat}

def Edge (period phase tick : Nat) : Prop := tick % period = phase

instance (period phase tick : Nat) : Decidable (Edge period phase tick) :=
  inferInstanceAs (Decidable (tick % period = phase))

def nextEdge (period phase tick : Nat) : Nat :=
  tick + 1 + (phase + period - (tick + 1) % period) % period

theorem lt_nextEdge (period phase tick : Nat) : tick < nextEdge period phase tick := by
  unfold nextEdge
  omega

theorem nextEdge_le (phase : Nat) (positive : 0 < period) (tick : Nat) :
    nextEdge period phase tick ≤ tick + period := by
  have below := Nat.mod_lt (phase + period - (tick + 1) % period) positive
  unfold nextEdge
  omega

theorem nextEdge_edge (inPeriod : phase < period) (tick : Nat) :
    Edge period phase (nextEdge period phase tick) := by
  have below := Nat.mod_lt (tick + 1) (Nat.zero_lt_of_lt inPeriod)
  have total : (tick + 1) % period + (phase + period - (tick + 1) % period) = phase + period := by
    omega
  calc (tick + 1 + (phase + period - (tick + 1) % period) % period) % period
      = ((tick + 1) % period + (phase + period - (tick + 1) % period)) % period := by
        rw [Nat.add_mod_mod, Nat.mod_add_mod]
    _ = (phase + period) % period := by rw [total]
    _ = phase := by rw [Nat.add_mod_right, Nat.mod_eq_of_lt inPeriod]

theorem edge_unique {start first second : Nat}
    (firstEdge : Edge period phase first) (secondEdge : Edge period phase second)
    (firstBounds : start < first ∧ first ≤ start + period)
    (secondBounds : start < second ∧ second ≤ start + period) : first = second := by
  have same : first ≡ second [MOD period] := firstEdge.trans secondEdge.symm
  rcases Nat.le_total first second with order | order
  · have multiple := (Nat.modEq_iff_dvd' order).mp same
    have small : second - first < period := by omega
    have equal := Nat.eq_zero_of_dvd_of_lt multiple small
    omega
  · have multiple := (Nat.modEq_iff_dvd' order).mp same.symm
    have small : first - second < period := by omega
    have equal := Nat.eq_zero_of_dvd_of_lt multiple small
    omega

/-- Every stretch of `length` ticks holds exactly one edge just when it is one period long. -/
theorem edge_once_iff (inPeriod : phase < period) (settled length : Nat) :
    (∀ start, settled ≤ start →
      ∃! tick, (start < tick ∧ tick ≤ start + length) ∧ Edge period phase tick) ↔
      length = period := by
  have positive : 0 < period := Nat.zero_lt_of_lt inPeriod
  constructor
  · intro once
    let edge := nextEdge period phase settled
    have after : settled < edge := lt_nextEdge period phase settled
    have isEdge : Edge period phase edge := nextEdge_edge inPeriod settled
    have next : Edge period phase (edge + period) := (Nat.add_mod_right _ _).trans isEdge
    rcases Nat.lt_trichotomy length period with short | equal | long
    · obtain ⟨tick, ⟨bounds, found⟩, _⟩ := once edge (by omega)
      have same := edge_unique found next ⟨bounds.1, by omega⟩ ⟨by omega, Nat.le_refl _⟩
      omega
    · exact equal
    · obtain ⟨tick, _, only⟩ := once (edge - 1) (by omega)
      have first := only edge ⟨by omega, isEdge⟩
      have second := only (edge + period) ⟨by omega, next⟩
      omega
  · rintro rfl start _
    refine ⟨nextEdge length phase start,
      ⟨⟨lt_nextEdge length phase start, nextEdge_le phase positive start⟩,
        nextEdge_edge inPeriod start⟩, ?_⟩
    rintro tick ⟨bounds, found⟩
    exact edge_unique found (nextEdge_edge inPeriod start) bounds
      ⟨lt_nextEdge length phase start, nextEdge_le phase positive start⟩

def Spaced (period : Nat) (pulses : Set Nat) : Prop :=
  ∀ first ∈ pulses, ∀ second ∈ pulses, first < second → first + period ≤ second

def sampled (period phase stretch : Nat) (pulses : Set Nat) : Set Nat :=
  { tick | Edge period phase tick ∧ ∃ pulse ∈ pulses, pulse < tick ∧ tick ≤ pulse + stretch }

def caught (period phase stretch : Nat) (pulses : Set Nat) : Set Nat :=
  { pulse ∈ pulses | nextEdge period phase pulse ≤ pulse + stretch }

theorem sampled_eq_image (inPeriod : phase < period) (short : stretch ≤ period) :
    sampled period phase stretch pulses =
      nextEdge period phase '' caught period phase stretch pulses := by
  have positive : 0 < period := Nat.zero_lt_of_lt inPeriod
  ext tick
  constructor
  · rintro ⟨edge, pulse, member, after, within⟩
    have first : nextEdge period phase pulse = tick :=
      edge_unique (nextEdge_edge inPeriod pulse) edge
        ⟨lt_nextEdge period phase pulse, nextEdge_le phase positive pulse⟩ ⟨after, by omega⟩
    exact ⟨pulse, ⟨member, by omega⟩, first⟩
  · rintro ⟨pulse, ⟨member, within⟩, rfl⟩
    exact ⟨nextEdge_edge inPeriod pulse, pulse, member, lt_nextEdge period phase pulse, within⟩

theorem nextEdge_injOn (positive : 0 < period) (spaced : Spaced period pulses) :
    Set.InjOn (nextEdge period phase) pulses := by
  intro first firstMember second secondMember equal
  have firstAfter := lt_nextEdge period phase first
  have firstWithin := nextEdge_le phase positive first
  have secondAfter := lt_nextEdge period phase second
  have secondWithin := nextEdge_le phase positive second
  rcases Nat.lt_trichotomy first second with order | same | order
  · have apart := spaced first firstMember second secondMember order
    omega
  · exact same
  · have apart := spaced second secondMember first firstMember order
    omega

theorem sampled_encard (inPeriod : phase < period) (short : stretch ≤ period)
    (spaced : Spaced period pulses) :
    (sampled period phase stretch pulses).encard =
      (caught period phase stretch pulses).encard := by
  rw [sampled_eq_image inPeriod short]
  exact ((nextEdge_injOn (Nat.zero_lt_of_lt inPeriod) spaced).mono
    fun _ member => member.1).encard_image

theorem sampled_encard_of_full (inPeriod : phase < period) (spaced : Spaced period pulses) :
    (sampled period phase period pulses).encard = pulses.encard := by
  rw [sampled_encard inPeriod (Nat.le_refl period) spaced]
  congr 1
  ext pulse
  exact ⟨fun member => member.1,
    fun member => ⟨member, nextEdge_le phase (Nat.zero_lt_of_lt inPeriod) pulse⟩⟩

theorem sampled_encard_eq_iff (inPeriod : phase < period) (short : stretch ≤ period)
    (spaced : Spaced period pulses) (finite : pulses.Finite) :
    (sampled period phase stretch pulses).encard = pulses.encard ↔
      ∀ pulse ∈ pulses, nextEdge period phase pulse ≤ pulse + stretch := by
  rw [sampled_encard inPeriod short spaced]
  have subset : caught period phase stretch pulses ⊆ pulses := fun _ member => member.1
  constructor
  · intro equal pulse member
    have all := (finite.subset subset).eq_of_subset_of_encard_le subset
      (le_of_eq equal.symm)
    exact (all.symm.subset member).2
  · intro each
    rw [Set.Subset.antisymm subset fun pulse member => ⟨member, each pulse member⟩]

end Sampling
