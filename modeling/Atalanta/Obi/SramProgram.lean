import Atalanta.Library.Device
import Atalanta.Library.WordMemory
import Atalanta.Obi.SramMemory

/-! The memory behind `obi_sram_intf` as programs of loads and stores see it, with the byte enables
and lanes of the core's load-store unit. -/

namespace Atalanta.ObiSram

open BusProgram Clocked

inductive Size
  | byte
  | word
deriving DecidableEq, Repr

structure Access where
  size : Size
  addr : BitVec 32
deriving DecidableEq, Repr

def byteLane (addr : BitVec 32) : Fin 4 := ⟨addr.toNat % 4, Nat.mod_lt _ (by decide)⟩

def Access.be (access : Access) : BitVec 4 :=
  match access.size with
  | .byte => 1#4 <<< (byteLane access.addr).val
  | .word => 0b1111

-- what a lane carries of the data of a store
def Access.laneData (access : Access) (data : BitVec 32) (i : Fin 4) : BitVec 8 :=
  match access.size with
  | .byte => data.setWidth 8
  | .word => lane data i

-- the load of a byte is told by its byte enables
def loaded (be : BitVec 4) (rdata : BitVec 32) : BitVec 32 :=
  match be with
  | 0b0001#4 => (lane rdata 0).setWidth 32
  | 0b0010#4 => (lane rdata 1).setWidth 32
  | 0b0100#4 => (lane rdata 2).setWidth 32
  | 0b1000#4 => (lane rdata 3).setWidth 32
  | _ => rdata

/-- The memory with each request beside the response that follows it one cycle later. -/
def answering (numWords : Nat) (baseAddr : BitVec 32) :
    Circuit State ObiReq (BitVec 4 × BitVec 32) where
  reset := (circuit numWords baseAddr).reset
  next := next numWords baseAddr
  out state obi := (obi.be, (next numWords baseAddr state obi).sram.rdataO)

def obiBus : Bus ObiReq (BitVec 4 × BitVec 32) Access (BitVec 32) where
  reads access obi :=
    obi.req = true ∧ obi.we = false ∧ obi.addr.toNat / 4 = access.addr.toNat / 4 ∧
      obi.be = access.be
  writes access data obi :=
    obi.req = true ∧ obi.we = true ∧ obi.addr.toNat / 4 = access.addr.toNat / 4 ∧
      obi.be = access.be ∧
      ∀ i : Fin 4, access.be.getLsbD i = true → lane obi.wdata i = access.laneData data i
  data answer := loaded answer.1 answer.2

def NoRequest (obi : ObiReq) : Prop := obi.req = false

def bytes : Device WordMemory.Memory Access (BitVec 32) where
  read memory access :=
    match access.size with
    | .byte => ((memory access.addr).setWidth 32, memory)
    | .word => (WordMemory.load memory access.addr, memory)
  write memory access data :=
    match access.size with
    | .byte => fun byte => if byte = access.addr then data.setWidth 8 else memory byte
    | .word => WordMemory.store memory access.addr data

/-- An access inside the memory, a word at an aligned address. -/
structure Fits (numWords : Nat) (baseAddr : BitVec 32) (access : Access) : Prop where
  inRange : InRange numWords baseAddr access.addr
  aligned : access.size = .word → 4 ∣ access.addr.toNat

instance (numWords : Nat) (baseAddr addr : BitVec 32) :
    Decidable (InRange numWords baseAddr addr) :=
  inferInstanceAs (Decidable (_ ∧ _))

def held (numWords : Nat) (baseAddr : BitVec 32) (state : State) : WordMemory.Memory :=
  fun byte =>
    if InRange numWords baseAddr byte then
      lane (state.sram.bram (wordIndex baseAddr byte)) (byteLane byte)
    else 0

section Serves

variable {depth : Nat} {baseAddr : BitVec 32} (aligned : 4 ∣ baseAddr.toNat)

include aligned

theorem inRange_word {first second : BitVec 32} (same : first.toNat / 4 = second.toNat / 4)
    (inRange : InRange (2 ^ depth) baseAddr second) : InRange (2 ^ depth) baseAddr first := by
  unfold InRange at inRange ⊢
  omega

/-- A request changes the bytes of its word that it writes and enables. -/
theorem held_next (state : State) {obi : ObiReq} (asks : obi.req = true)
    (inRange : InRange (2 ^ depth) baseAddr obi.addr) (byte : BitVec 32) :
    held (2 ^ depth) baseAddr (next (2 ^ depth) baseAddr state obi) byte =
      if byte.toNat / 4 = obi.addr.toNat / 4 ∧ obi.we = true ∧
          obi.be.getLsbD (byteLane byte) = true then
        lane obi.wdata (byteLane byte)
      else held (2 ^ depth) baseAddr state byte := by
  have address := sramAddr_eq depth baseAddr obi.addr inRange
  have inDepth := sramAddr_lt depth baseAddr obi.addr inRange
  rw [address] at inDepth
  unfold held
  by_cases within : InRange (2 ^ depth) baseAddr byte
  · have word := same_word_of_aligned aligned within.1 inRange.1
    rw [if_pos within, if_pos within]
    simp only [next, Bram.next, asks, address, true_and]
    by_cases same : byte.toNat / 4 = obi.addr.toNat / 4
    · have row := word.mpr same
      rw [row, if_pos ⟨rfl, inDepth⟩, lane_writeColumns, bwEna_getLsbD]
      simp only [same, true_and, Bool.and_eq_true]
    · rw [if_neg fun both => same (word.mp both.1), if_neg fun both => same both.1]
  · have apart : ¬byte.toNat / 4 = obi.addr.toNat / 4 :=
      fun same => within (inRange_word aligned same inRange)
    rw [if_neg within, if_neg within, if_neg fun both => apart both.1]

omit aligned in
theorem rdata_next (state : State) {obi : ObiReq} (asks : obi.req = true)
    (inRange : InRange (2 ^ depth) baseAddr obi.addr) :
    (next (2 ^ depth) baseAddr state obi).sram.rdataO =
      state.sram.bram (wordIndex baseAddr obi.addr) := by
  have address := sramAddr_eq depth baseAddr obi.addr inRange
  have inDepth := sramAddr_lt depth baseAddr obi.addr inRange
  rw [address] at inDepth
  simp only [next, Bram.next, asks, if_true, address, inDepth]

omit aligned in
theorem byte_in_word {addr offset : BitVec 32} (aligned : 4 ∣ addr.toNat)
    (small : offset.toNat < 4) : (addr + offset).toNat = addr.toNat + offset.toNat := by
  have bounded := addr.isLt
  rw [BitVec.toNat_add]
  omega

theorem load_held (state : State) {addr : BitVec 32} (word : 4 ∣ addr.toNat)
    (inRange : InRange (2 ^ depth) baseAddr addr) :
    WordMemory.load (held (2 ^ depth) baseAddr state) addr =
      state.sram.bram (wordIndex baseAddr addr) := by
  have byte (offset : BitVec 32) (small : offset.toNat < 4) :
      held (2 ^ depth) baseAddr state (addr + offset) =
        WordMemory.byteAt (state.sram.bram (wordIndex baseAddr addr)) offset.toNat := by
    have place := byte_in_word word small
    have same : (addr + offset).toNat / 4 = addr.toNat / 4 := by omega
    have within : InRange (2 ^ depth) baseAddr (addr + offset) :=
      inRange_word aligned same inRange
    have lanes : (byteLane (addr + offset)).val = offset.toNat := by
      change (addr + offset).toNat % 4 = _
      omega
    rw [held, if_pos within, (same_word_of_aligned aligned within.1 inRange.1).mpr same, lane,
      lanes]
    rfl
  unfold WordMemory.load
  rw [byte 3 (by decide), byte 2 (by decide), byte 1 (by decide), byte 0 (by decide)]
  exact WordMemory.append_byteAt _

omit aligned in
theorem be_byte (lane byte : Fin 4) :
    (1#4 <<< lane.val).getLsbD byte.val = decide (byte = lane) := by
  revert lane byte
  decide

omit aligned in
theorem loaded_byte (lane' : Fin 4) (rdata : BitVec 32) :
    loaded (1#4 <<< lane'.val) rdata = (lane rdata lane').setWidth 32 := by
  match lane' with
  | 0 | 1 | 2 | 3 => rfl

theorem load_answered (state : State) {access : Access} {obi : ObiReq}
    (fits : Fits (2 ^ depth) baseAddr access) (reads : obiBus.reads access obi) :
    bytes.read (held (2 ^ depth) baseAddr state) access =
      (loaded obi.be (next (2 ^ depth) baseAddr state obi).sram.rdataO,
        held (2 ^ depth) baseAddr (next (2 ^ depth) baseAddr state obi)) := by
  obtain ⟨asks, reading, same, enables⟩ := reads
  have within := inRange_word aligned same fits.inRange
  have row := (same_word_of_aligned aligned within.1 fits.inRange.1).mpr same
  have kept : held (2 ^ depth) baseAddr (next (2 ^ depth) baseAddr state obi) =
      held (2 ^ depth) baseAddr state := by
    funext byte
    rw [held_next aligned state asks within, reading]
    exact if_neg fun all => absurd all.2.1 (by decide)
  rw [kept, rdata_next state asks within, row, enables]
  cases size : access.size with
  | byte =>
      simp only [bytes, Access.be, size, loaded_byte]
      rw [held, if_pos fits.inRange]
  | word =>
      simp only [bytes, Access.be, size]
      rw [load_held aligned state (fits.aligned size) fits.inRange]
      rfl

theorem store_done (state : State) {access : Access} {data : BitVec 32} {obi : ObiReq}
    (fits : Fits (2 ^ depth) baseAddr access) (writes : obiBus.writes access data obi) :
    held (2 ^ depth) baseAddr (next (2 ^ depth) baseAddr state obi) =
      bytes.write (held (2 ^ depth) baseAddr state) access data := by
  obtain ⟨asks, writing, same, enables, lanes⟩ := writes
  have within := inRange_word aligned same fits.inRange
  funext byte
  rw [held_next aligned state asks within, same, writing, enables]
  cases size : access.size with
  | byte =>
      have enabled (lane : Fin 4) : access.be.getLsbD lane =
          decide (lane = byteLane access.addr) := by
        simp only [Access.be, size, be_byte]
      have here : byte.toNat / 4 = access.addr.toNat / 4 ∧
          byteLane byte = byteLane access.addr ↔ byte = access.addr := by
        rw [Fin.ext_iff, ← BitVec.toNat_inj]
        change _ ∧ byte.toNat % 4 = access.addr.toNat % 4 ↔ _
        omega
      simp only [bytes, size, enabled, decide_eq_true_eq, true_and, here]
      by_cases own : byte = access.addr
      · have stored := lanes (byteLane byte) (by rw [enabled, own, decide_eq_true rfl])
        rw [if_pos own, if_pos own, stored]
        simp only [Access.laneData, size]
      · rw [if_neg own, if_neg own]
  | word =>
      have enabled (lane : Fin 4) : access.be.getLsbD lane = true := by
        simp only [Access.be, size]
        revert lane
        decide
      have start := fits.aligned size
      have offset : byte.toNat / 4 = access.addr.toNat / 4 ↔ (byte - access.addr).toNat < 4 := by
        have bounded := access.addr.isLt
        rw [BitVec.toNat_sub]
        omega
      simp only [bytes, size, WordMemory.store, enabled, and_true]
      by_cases own : (byte - access.addr).toNat < 4
      · have place : (byteLane byte).val = (byte - access.addr).toNat := by
          have below := offset.mpr own
          change byte.toNat % 4 = _
          rw [BitVec.toNat_sub_of_le (BitVec.le_def.mpr (by omega))]
          omega
        rw [if_pos (offset.mpr own), if_pos own, lanes _ (enabled _)]
        simp only [Access.laneData, size, lane, place]
        rfl
      · rw [if_neg fun here => own (offset.mp here), if_neg own]

/-- Behind the interface is a memory of bytes, for any timing of the requests. -/
theorem serves_bytes : Serves (answering (2 ^ depth) baseAddr) obiBus NoRequest bytes
    (Fits (2 ^ depth) baseAddr) (held (2 ^ depth) baseAddr) where
  read state obi access fits reads := load_answered aligned state fits reads
  write state obi access data fits writes := store_done aligned state fits writes
  kept state obi none := by
    unfold NoRequest at none
    change held _ _ (next (2 ^ depth) baseAddr state obi) = _
    unfold held
    simp only [next, Bram.next, none, Bool.false_eq_true, false_and, if_false]

end Serves

end Atalanta.ObiSram
