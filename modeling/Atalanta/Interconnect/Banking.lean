import Atalanta.Interconnect.AddressSpace

/-! The banks of the SRAM for any number of banks: the generated rules of the main crossbar
against the memories that `g_mem_banks` puts behind them. -/

namespace Atalanta.Routing

open Interconnect RtPkg

def bankWords (numMemBanks : Nat) : Nat := sramSizeBytes / 4 / numMemBanks

def bankBase (numMemBanks i : Nat) : Nat :=
  sramRule.start + sramSizeBytes * (i * 1 / numMemBanks)

structure StoredIn (numMemBanks : Nat) (addr : BitVec 32) (bank row : Nat) : Prop where
  present : bank < numMemBanks
  routed : (bankRule numMemBanks bank).Contains addr.toNat
  cell : row = sramRow (bankWords numMemBanks) (bankBase numMemBanks bank) addr

structure BanksPartition (numMemBanks : Nat) : Prop where
  apart : (sramRules numMemBanks).Pairwise fun left right => left.toRange.Apart right.toRange
  cover : ∀ addr, (∃ rule ∈ sramRules numMemBanks, rule.Contains addr) ↔ sramRule.Contains addr
  sized : ∀ bank < numMemBanks,
    (bankRule numMemBanks bank).start = bankBase numMemBanks bank ∧
    (bankRule numMemBanks bank).stop =
      (bankRule numMemBanks bank).start + 4 * bankWords numMemBanks
  injective : ∀ left right bank row, StoredIn numMemBanks left bank row →
    StoredIn numMemBanks right bank row → left.toNat / 4 = right.toNat / 4

theorem bankRule_single : (bankRule 1 0).toRange = sramRule := rfl

theorem stored_single {addr : BitVec 32} {bank row : Nat} (stored : StoredIn 1 addr bank row) :
    sramRule.Contains addr.toNat ∧ row = cell sramRule addr := by
  obtain ⟨present, routed, rfl⟩ := stored
  obtain rfl : bank = 0 := by omega
  exact ⟨routed, bankRow_eq_cell routed⟩

theorem single_bank_partition : BanksPartition 1 where
  apart := by decide
  cover addr := by
    rw [sramRules]
    simp only [List.range_one, List.map_cons, List.map_nil, List.mem_singleton, exists_eq_left]
    rw [bankRule_single]
  sized bank present := by
    obtain rfl : bank = 0 := by omega
    exact ⟨rfl, rfl⟩
  injective left right bank row inLeft inRight := by
    obtain ⟨leftInside, leftRow⟩ := stored_single inLeft
    obtain ⟨rightInside, rightRow⟩ := stored_single inRight
    have same : cell sramRule left = cell sramRule right := leftRow.symm.trans rightRow
    have above := leftInside.1
    have above' := rightInside.1
    simp only [cell, BitVec.toNat_ushiftRight, Nat.shiftRight_eq_div_pow, sramRule]
      at same above above'
    bv_omega

/-- `(i + 1) * 1 / numMemBanks` is zero for every bank but the last, so a rule has the size
of its bank only where there is one bank. -/
theorem banks_partition_iff (numMemBanks : Nat) (positive : 1 ≤ numMemBanks)
    (divides : numMemBanks ∣ sramSizeBytes / 4) :
    BanksPartition numMemBanks ↔ numMemBanks = 1 := by
  constructor
  · intro partition
    by_contra several
    have truncated : (0 + 1) * 1 / numMemBanks = 0 := Nat.div_eq_of_lt (by omega)
    have empty : (bankRule numMemBanks 0).stop = (bankRule numMemBanks 0).start := by
      simp only [bankRule, truncated, Nat.zero_mul, Nat.zero_div]
    have nonempty : 0 < bankWords numMemBanks :=
      Nat.div_pos (Nat.le_of_dvd (by decide) divides) positive
    have size := (partition.sized 0 (by omega)).2
    omega
  · rintro rfl
    exact single_bank_partition

theorem banks_partition_single : BanksPartition 1 :=
  (banks_partition_iff 1 (by decide) (by decide)).mpr rfl

/-- With two banks the first rule is empty and the second covers the whole SRAM, whose two
halves share the 8192 words of the second bank. -/
theorem two_banks_alias :
    2 ∣ sramSizeBytes / 4 ∧ bankRule 2 0 = ⟨⟨0x20000, 0x20000⟩, 5⟩ ∧
      bankRule 2 1 = ⟨⟨0x20000, 0x30000⟩, 6⟩ ∧
      StoredIn 2 0x20000 1 0 ∧ StoredIn 2 0x28000 1 0 ∧ ¬BanksPartition 2 := by
  have low : StoredIn 2 0x20000 1 0 := ⟨by decide, by decide, by decide⟩
  have high : StoredIn 2 0x28000 1 0 := ⟨by decide, by decide, by decide⟩
  refine ⟨by decide, rfl, rfl, low, high, fun partition => ?_⟩
  exact absurd (partition.injective _ _ _ _ low high) (by decide)

end Atalanta.Routing
