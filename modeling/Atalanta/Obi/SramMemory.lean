import Atalanta.Obi.SramCore
import Atalanta.Library.LaneMemory
import Mathlib

/-! The memory behind `obi_sram_intf` is an atomic byte-addressed memory. -/

namespace Atalanta.ObiSram

open Clocked LaneMemory

def lane (word : BitVec 32) (i : Fin 4) : BitVec 8 := word.extractLsb' (8 * i) 8

theorem byteMask_getLsbD (bit : Nat) : (0xFF#32).getLsbD bit = decide (bit < 8) := by
  rw [show 0xFF#32 = (BitVec.allOnes 8).setWidth 32 from rfl, BitVec.getLsbD_setWidth,
    BitVec.getLsbD_allOnes]
  by_cases low : bit < 8
  · simp [low, show bit < 32 by omega]
  · simp [low]

theorem lane_writeColumn (row wdata : BitVec 32) (i j : Fin 4) :
    lane (writeColumn row wdata i) j = if i = j then lane wdata j else lane row j := by
  apply BitVec.eq_of_getLsbD_eq
  intro bit within
  have inWord : 8 * j.val + bit < 32 := by omega
  have masked : (0xFF#32 <<< (8 * i.val)).getLsbD (8 * j.val + bit) = decide (i = j) := by
    rw [BitVec.getLsbD_shiftLeft, byteMask_getLsbD]
    by_cases same : i = j
    · subst same
      simp [inWord, within]
    · have apart : i.val ≠ j.val := fun equal => same (Fin.ext equal)
      simp only [same, inWord, decide_true, Bool.true_and, decide_false]
      by_cases below : 8 * j.val + bit < 8 * i.val
      · simp [below]
      · simp only [below, decide_false, Bool.not_false, Bool.true_and, decide_eq_false_iff_not]
        omega
  simp only [lane, writeColumn, colWidth, BitVec.getLsbD_extractLsb', within, decide_true,
    Bool.true_and, BitVec.getLsbD_or, BitVec.getLsbD_and, BitVec.getLsbD_not, inWord, masked]
  by_cases same : i = j <;> simp [same, within]

theorem lane_foldl_writeColumn (wdata : BitVec 32) (bwe : BitVec 4) (j : Fin 4)
    (columns : List (Fin 4)) (row : BitVec 32) :
    lane (columns.foldl
        (fun current (i : Fin 4) =>
          if bwe.getLsbD i then writeColumn current wdata i else current) row) j =
      if bwe.getLsbD j = true ∧ j ∈ columns then lane wdata j else lane row j := by
  induction columns generalizing row with
  | nil => simp
  | cons i rest ih =>
      rw [List.foldl_cons, ih]
      by_cases enabled : bwe.getLsbD i = true
      · rw [if_pos enabled, lane_writeColumn]
        by_cases same : i = j
        · subst same
          simp only [enabled, List.mem_cons_self, if_true, true_and]
          split <;> rfl
        · simp [same, Ne.symm same]
      · rw [if_neg enabled]
        by_cases same : i = j
        · subst same
          simp only [enabled, Bool.false_eq_true, false_and, if_false]
        · simp [Ne.symm same]

theorem lane_writeColumns (row wdata : BitVec 32) (bwe : BitVec 4) (j : Fin 4) :
    lane (writeColumns row wdata bwe) j =
      if bwe.getLsbD j = true then lane wdata j else lane row j := by
  have folded := lane_foldl_writeColumn wdata bwe j (List.finRange 4) row
  simp only [List.mem_finRange j, and_true] at folded
  exact folded

def InRange (numWords : Nat) (baseAddr addr : BitVec 32) : Prop :=
  baseAddr.toNat ≤ addr.toNat ∧ addr.toNat < baseAddr.toNat + 4 * numWords

def wordIndex (baseAddr addr : BitVec 32) : Nat := (addr.toNat - baseAddr.toNat) / 4

/-- Inside the range neither the subtraction wraps nor the truncation loses a bit. -/
theorem sramAddr_eq (depth : Nat) (baseAddr addr : BitVec 32)
    (inRange : InRange (2 ^ depth) baseAddr addr) :
    sramAddr (2 ^ depth) baseAddr addr = wordIndex baseAddr addr := by
  obtain ⟨above, below⟩ := inRange
  have width : Nat.clog 2 (2 ^ depth) = depth := Nat.clog_pow 2 depth (by omega)
  have offset : (offsetAddr baseAddr addr).toNat = addr.toNat - baseAddr.toNat :=
    BitVec.toNat_sub_of_le (BitVec.le_def.mpr above)
  have bounded := addr.isLt
  have word : (wordAddr baseAddr addr).toNat = wordIndex baseAddr addr := by
    rw [wordAddr, BitVec.extractLsb'_toNat, offset, Nat.shiftRight_eq_div_pow]
    exact Nat.mod_eq_of_lt (by omega)
  rw [sramAddr, width, BitVec.toNat_setWidth, word]
  apply Nat.mod_eq_of_lt
  unfold wordIndex
  omega

theorem sramAddr_lt (depth : Nat) (baseAddr addr : BitVec 32)
    (inRange : InRange (2 ^ depth) baseAddr addr) :
    sramAddr (2 ^ depth) baseAddr addr < 2 ^ depth := by
  rw [sramAddr_eq depth baseAddr addr inRange]
  obtain ⟨above, below⟩ := inRange
  unfold wordIndex
  omega

def request (baseAddr : BitVec 32) (obi : ObiReq) : Option (Request Nat (Fin 4) (BitVec 8)) :=
  if obi.req then
    some {
      index := wordIndex baseAddr obi.addr
      enable := fun i => obi.we && obi.be.getLsbD i
      data := lane obi.wdata }
  else none

theorem request_of_req (baseAddr : BitVec 32) (obi : ObiReq) (asks : obi.req = true) :
    request baseAddr obi = some {
      index := wordIndex baseAddr obi.addr
      enable := fun i => obi.we && obi.be.getLsbD i
      data := lane obi.wdata } :=
  if_pos asks

theorem bwEna_getLsbD (obi : ObiReq) (i : Fin 4) :
    (bwEna obi).getLsbD i = (obi.we && obi.be.getLsbD i) := by
  unfold bwEna
  cases obi.we with
  | false => simp
  | true =>
      have full : (0b1111#4 &&& obi.be) = obi.be := BitVec.allOnes_and
      simp [full]

def expectedFsm (obi : Nat → ObiReq) : Nat → HandshakeState
  | 0 => .idle
  | before + 1 => if (obi before).req then .ack else .idle

theorem expectedFsm_settled (obi : Nat → ObiReq) (cycle : Nat) :
    expectedFsm obi cycle = .idle ∨ expectedFsm obi cycle = .ack := by
  cases cycle with
  | zero => exact Or.inl rfl
  | succ before =>
      unfold expectedFsm
      split <;> simp

theorem handshakeFsm_expected (obi : Nat → ObiReq) (cycle : Nat) :
    (handshakeFsm (expectedFsm obi cycle) (obi cycle).req).nextState =
      expectedFsm obi (cycle + 1) := by
  change _ = if (obi cycle).req then HandshakeState.ack else .idle
  rcases expectedFsm_settled obi cycle with idle | acked
  · rw [idle]
    cases (obi cycle).req <;> rfl
  · rw [acked]
    cases (obi cycle).req <;> rfl

/-- The state of the memory before a cycle: the handshake remembers whether a request was
made in the cycle before, the rows hold the contents of the atomic memory, and the read
register holds the word that a request of the cycle before addressed. -/
structure Refines (depth : Nat) (baseAddr : BitVec 32) (initial : Nat → BitVec 32)
    (obi : Nat → ObiReq) (cycle : Nat) (state : State) : Prop where
  handshake : state.fsm = expectedFsm obi cycle
  rows : ∀ row < 2 ^ depth, ∀ i, lane (state.sram.bram row) i =
    contentsAt (fun word => lane (initial word)) (fun before => request baseAddr (obi before))
      cycle row i
  rdata : ∀ before, cycle = before + 1 → (obi before).req = true → ∀ i,
    lane state.sram.rdataO i =
      contentsAt (fun word => lane (initial word)) (fun earlier => request baseAddr (obi earlier))
        before (wordIndex baseAddr (obi before).addr) i

theorem refines_next (depth : Nat) (baseAddr : BitVec 32) (initial : Nat → BitVec 32)
    (obi : Nat → ObiReq)
    (inRange : ∀ cycle, (obi cycle).req = true → InRange (2 ^ depth) baseAddr (obi cycle).addr)
    (cycle : Nat) (state : State) (refines : Refines depth baseAddr initial obi cycle state) :
    Refines depth baseAddr initial obi (cycle + 1)
      (next (2 ^ depth) baseAddr state (obi cycle)) := by
  constructor
  · change (handshakeFsm state.fsm (obi cycle).req).nextState = _
    rw [refines.handshake]
    exact handshakeFsm_expected obi cycle
  · intro row inDepth i
    have before := refines.rows row inDepth i
    cases asks : (obi cycle).req with
    | false =>
        rw [contentsAt_of_none _ _ (by simp [request, asks])]
        simpa [next, Bram.next, asks] using before
    | true =>
        have address := sramAddr_eq depth baseAddr (obi cycle).addr (inRange cycle asks)
        rw [contentsAt_of_some _ _ (request_of_req baseAddr (obi cycle) asks)]
        simp only [next, Bram.next, asks, address, inDepth, apply, true_and, and_true]
        by_cases addressed : row = wordIndex baseAddr (obi cycle).addr
        · rw [if_pos addressed, lane_writeColumns, bwEna_getLsbD, before]
          simp only [addressed, true_and]
        · rw [if_neg addressed, if_neg (fun both => addressed both.1)]
          exact before
  · rintro before same asks i
    obtain rfl : cycle = before := by omega
    have address := sramAddr_eq depth baseAddr (obi cycle).addr (inRange cycle asks)
    have inDepth := sramAddr_lt depth baseAddr (obi cycle).addr (inRange cycle asks)
    rw [address] at inDepth
    simp only [next, Bram.next, asks, if_true, address, inDepth]
    exact refines.rows _ inDepth i

theorem runFrom_refines (depth : Nat) (baseAddr : BitVec 32) (initial : Nat → BitVec 32)
    (obi : Nat → ObiReq)
    (inRange : ∀ cycle, (obi cycle).req = true → InRange (2 ^ depth) baseAddr (obi cycle).addr)
    (cycle : Nat) :
    Refines depth baseAddr initial obi cycle
      ((circuit (2 ^ depth) baseAddr).runFrom (resetWith initial) obi cycle) := by
  induction cycle with
  | zero => exact ⟨rfl, fun _ _ _ => rfl, fun _ impossible => by omega⟩
  | succ cycle ih => exact refines_next depth baseAddr initial obi inRange cycle _ ih

variable {depth : Nat} {baseAddr : BitVec 32} {initial : Nat → BitVec 32} {obi : Nat → ObiReq}

def outFrom (depth : Nat) (baseAddr : BitVec 32) (initial : Nat → BitVec 32)
    (obi : Nat → ObiReq) : Nat → Output :=
  (circuit (2 ^ depth) baseAddr).outFrom (resetWith initial) obi

theorem gnt_eq_req {cycle : Nat} {state : State}
    (refines : Refines depth baseAddr initial obi cycle state) :
    (out state (obi cycle)).gnt = (obi cycle).req := by
  change (handshakeFsm state.fsm (obi cycle).req).gnt = _
  rw [refines.handshake]
  rcases expectedFsm_settled obi cycle with idle | acked
  · rw [idle]
    cases (obi cycle).req <;> rfl
  · rw [acked]
    cases (obi cycle).req <;> rfl

theorem rvalid_after_req {cycle : Nat} {state : State}
    (refines : Refines depth baseAddr initial obi cycle state) :
    (out state (obi cycle)).rvalid = true ↔
      ∃ before, cycle = before + 1 ∧ (obi before).req = true := by
  change (handshakeFsm state.fsm (obi cycle).req).rvalid = true ↔ _
  rw [refines.handshake]
  cases cycle with
  | zero => cases asks : (obi 0).req <;> simp [expectedFsm, handshakeFsm]
  | succ before =>
      have unique : (∃ earlier, before + 1 = earlier + 1 ∧ (obi earlier).req = true) ↔
          (obi before).req = true := by
        constructor
        · rintro ⟨earlier, same, asked⟩
          obtain rfl : before = earlier := by omega
          exact asked
        · exact fun asked => ⟨before, rfl, asked⟩
      rw [unique]
      cases asked : (obi before).req <;> cases asks : (obi (before + 1)).req <;>
        simp [expectedFsm, handshakeFsm, asked]

theorem same_word_of_aligned {a b : BitVec 32} (aligned : 4 ∣ baseAddr.toNat)
    (aAbove : baseAddr.toNat ≤ a.toNat) (bAbove : baseAddr.toNat ≤ b.toNat) :
    wordIndex baseAddr a = wordIndex baseAddr b ↔ a.toNat / 4 = b.toNat / 4 := by
  obtain ⟨words, base⟩ := aligned
  unfold wordIndex
  omega

/-- `obi_sram_intf` refines an atomic byte-addressed memory. Words are counted from the
base; for an aligned base they are the aligned words of the address space. -/
theorem refines_atomic (depth : Nat) (baseAddr : BitVec 32) (initial : Nat → BitVec 32)
    (obi : Nat → ObiReq)
    (inRange : ∀ cycle, (obi cycle).req = true → InRange (2 ^ depth) baseAddr (obi cycle).addr) :
    (∀ cycle, (outFrom depth baseAddr initial obi cycle).gnt = (obi cycle).req) ∧
    (∀ cycle, (outFrom depth baseAddr initial obi cycle).rvalid = true ↔
      ∃ before, cycle = before + 1 ∧ (obi before).req = true) ∧
    (∀ cycle, (obi cycle).req = true → (obi cycle).we = false → ∀ i,
      Latest (fun word => lane (initial word)) (fun earlier => request baseAddr (obi earlier))
        (wordIndex baseAddr (obi cycle).addr) i cycle
        (lane (outFrom depth baseAddr initial obi (cycle + 1)).rdata i)) ∧
    (∀ a b, InRange (2 ^ depth) baseAddr a → InRange (2 ^ depth) baseAddr b →
      (sramAddr (2 ^ depth) baseAddr a = sramAddr (2 ^ depth) baseAddr b ↔
        wordIndex baseAddr a = wordIndex baseAddr b) ∧
      (4 ∣ baseAddr.toNat →
        (wordIndex baseAddr a = wordIndex baseAddr b ↔ a.toNat / 4 = b.toNat / 4))) := by
  have refines := runFrom_refines depth baseAddr initial obi inRange
  refine ⟨fun cycle => gnt_eq_req (refines cycle), fun cycle => rvalid_after_req (refines cycle),
    ?_, ?_⟩
  · intro cycle asks _ i
    have returned := (refines (cycle + 1)).rdata cycle rfl asks i
    have latest := contentsAt_latest (fun word => lane (initial word))
      (fun earlier => request baseAddr (obi earlier)) (wordIndex baseAddr (obi cycle).addr) i cycle
    rw [← returned] at latest
    exact latest
  · intro a b aInRange bInRange
    rw [sramAddr_eq depth baseAddr a aInRange, sramAddr_eq depth baseAddr b bInRange]
    exact ⟨Iff.rfl, fun aligned => same_word_of_aligned aligned aInRange.1 bInRange.1⟩

def writeThenRead : Nat → ObiReq
  | 0 => .write 0x5004 0b0011 0xAABBCCDD
  | 1 => .read 0x5004
  | _ => .idle

theorem writeThenRead_inRange (cycle : Nat) (asks : (writeThenRead cycle).req = true) :
    InRange (2 ^ 12) 0x5000 (writeThenRead cycle).addr := by
  match cycle with
  | 0 => exact ⟨by decide, by decide⟩
  | 1 => exact ⟨by decide, by decide⟩
  | _ + 2 => cases asks

theorem refines_atomic_writeThenRead :
    (outFrom 12 0x5000 (fun _ => 0x11111111) writeThenRead 1).gnt = true ∧
    (outFrom 12 0x5000 (fun _ => 0x11111111) writeThenRead 2).rvalid = true ∧
    Latest (fun _ => lane 0x11111111) (fun cycle => request 0x5000 (writeThenRead cycle)) 1 0 1
      0xDD ∧
    Latest (fun _ => lane 0x11111111) (fun cycle => request 0x5000 (writeThenRead cycle)) 1 3 1
      0x11 := by
  obtain ⟨granted, valid, returned, _⟩ :=
    refines_atomic 12 0x5000 (fun _ => 0x11111111) writeThenRead writeThenRead_inRange
  exact ⟨granted 1, (valid 2).mpr ⟨1, rfl, rfl⟩, returned 1 rfl rfl 0, returned 1 rfl rfl 3⟩

end Atalanta.ObiSram
