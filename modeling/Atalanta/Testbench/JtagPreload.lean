import Atalanta.Library.Overlay
import Atalanta.Library.WordMemory
import Atalanta.Testbench.ElfLoader

/-! `Testbench::jtag_elf_preload`: the segments of a file, written word by word through the
system bus of the debug module. -/

namespace Atalanta.JtagPreload

open ElfLoader WordMemory

structure Target where
  sbAddress : BitVec 32
  memory : Memory

def sbcs : BitVec 8 := 0x38
def sbAddr0 : BitVec 8 := 0x39
def sbData0 : BitVec 8 := 0x3c
def jtagInitSbcs : BitVec 32 := 0x58000

/-- A data write stores one word and advances the address. -/
def jtagWrite (target : Target) (reg : BitVec 8) (data : BitVec 32) : Target :=
  if reg = sbAddr0 then { target with sbAddress := data }
  else if reg = sbData0 then
    { sbAddress := target.sbAddress + 4
      memory := store target.memory target.sbAddress data }
  else target

def copy : List (BitVec 8) → (room position : Nat) → (Nat → BitVec 8) → Option (Nat → BitVec 8)
  | [], _, _, buf => some buf
  | _ :: _, 0, _, _ => none
  | datum :: rest, room + 1, position, buf =>
    copy rest room (position + 1) fun index => if index = position then datum else buf index

def readSection (loader : Loader) (address len : Nat) (buf : Nat → BitVec 8) :
    Option (Nat → BitVec 8) :=
  (loader.mems address).bind fun data => copy data len 0 buf

/-- The target, and every index read so far with the length of the buffer it was read from. -/
structure Run where
  target : Target
  reads : List (Nat × Nat)

def wordAt (bf : Nat → BitVec 8) (i : Nat) : BitVec 32 :=
  bf (i + 3) ++ bf (i + 2) ++ bf (i + 1) ++ bf i

def writeLoop (bf : Nat → BitVec 8) (secLen i : Nat) (run : Run) : Run :=
  if i ≤ secLen then
    writeLoop bf secLen (i + 4)
      { target := jtagWrite run.target sbData0 (wordAt bf i)
        reads := run.reads ++ [(i + 3, secLen), (i + 2, secLen), (i + 1, secLen), (i, secLen)] }
  else run
termination_by secLen + 1 - i

def preloadSection (bf : Nat → BitVec 8) (secAddr secLen : Nat) (run : Run) : Run :=
  writeLoop bf secLen 0
    { run with
      target :=
        jtagWrite (jtagWrite run.target sbcs jtagInitSbcs) sbAddr0 (BitVec.ofNat 32 secAddr) }

/-- The loop over the sections. `heap` is what the memory of the buffer holds when it is
allocated, and what lies behind it. -/
def preloadLoop (heap : Nat → Nat → BitVec 8) (loader : Loader) (run : Run) : Option Run :=
  match _found : getSection loader with
  | none => some run
  | some ((secAddr, secLen), next) =>
    (readSection loader secAddr secLen (heap secAddr)).bind fun bf =>
      preloadLoop heap next (preloadSection bf secAddr secLen run)
termination_by loader.sections.length - loader.sectionIndex
decreasing_by
  obtain ⟨_, present, same⟩ := Option.map_eq_some_iff.mp _found
  obtain ⟨inside, _⟩ := List.getElem?_eq_some_iff.mp present
  cases same
  simp only
  omega

def jtagElfPreload (heap : Nat → Nat → BitVec 8) (file : File) (target : Target) :
    Option (Run × BitVec 32) :=
  (readElf file).bind fun (loader, _) =>
    (preloadLoop heap loader ⟨target, []⟩).map fun run => (run, BitVec.ofNat 32 loader.entry)

theorem byteAt_wordAt (bf : Nat → BitVec 8) (i : Nat) {byte : Nat} (small : byte < 4) :
    byteAt (wordAt bf i) byte = bf (i + byte) := by
  unfold byteAt wordAt
  obtain rfl | rfl | rfl | rfl : byte = 0 ∨ byte = 1 ∨ byte = 2 ∨ byte = 3 := by omega
  · exact BitVec.extractLsb'_append_eq_right
  · rw [BitVec.extractLsb'_append_eq_of_le (by decide)]
    exact BitVec.extractLsb'_append_eq_right
  · rw [BitVec.extractLsb'_append_eq_of_le (by decide),
      BitVec.extractLsb'_append_eq_of_le (by decide)]
    exact BitVec.extractLsb'_append_eq_right
  · rw [BitVec.extractLsb'_append_eq_of_le (by decide),
      BitVec.extractLsb'_append_eq_of_le (by decide)]
    exact BitVec.extractLsb'_append_eq_left

theorem writeLoop_memory (bf : Nat → BitVec 8) (secLen rounds : Nat) (i : Nat) (run : Run)
    (enough : secLen < i + 4 * rounds) (needed : 0 < rounds → i + 4 * (rounds - 1) ≤ secLen)
    (fits : 4 * rounds ≤ 2 ^ 32) (byte : BitVec 32) :
    (writeLoop bf secLen i run).target.memory byte =
      if (byte - run.target.sbAddress).toNat < 4 * rounds then
        bf (i + (byte - run.target.sbAddress).toNat)
      else run.target.memory byte := by
  induction rounds generalizing i run with
  | zero =>
      rw [writeLoop, if_neg (by omega)]
      simp
  | succ rounds ih =>
      have more := needed (by omega)
      rw [writeLoop, if_pos (by omega), ih (i + 4) _ (by omega) (by omega) (by omega)]
      change (if (byte - (run.target.sbAddress + 4)).toNat < 4 * rounds then
          bf (i + 4 + (byte - (run.target.sbAddress + 4)).toNat)
        else store run.target.memory run.target.sbAddress (wordAt bf i) byte) = _
      rw [sub_add_eq_sub_sub, store]
      generalize byte - run.target.sbAddress = offset
      have bounded := offset.isLt
      have next : (offset - 4).toNat =
          if offset.toNat < 4 then offset.toNat + 2 ^ 32 - 4 else offset.toNat - 4 := by
        rw [BitVec.toNat_sub]
        change (2 ^ 32 - 4 + offset.toNat) % 2 ^ 32 = _
        split <;> omega
      rw [next]
      by_cases first : offset.toNat < 4
      · rw [if_pos first, if_neg (by omega), if_pos first, if_pos (by omega),
          byteAt_wordAt bf i first]
      · rw [if_neg first, if_neg first]
        by_cases later : offset.toNat - 4 < 4 * rounds
        · have place : i + 4 + (offset.toNat - 4) = i + offset.toNat := by omega
          rw [if_pos later, if_pos (by omega), place]
        · rw [if_neg later, if_neg (by omega)]

theorem copy_eq (data : List (BitVec 8)) (room position : Nat) (buf : Nat → BitVec 8)
    (fits : data.length ≤ room) :
    copy data room position buf = some fun index =>
      if position ≤ index then (data[index - position]?).getD (buf index) else buf index := by
  induction data generalizing room position buf with
  | nil => simp [copy]
  | cons datum rest ih =>
      cases room with
      | zero => simp at fits
      | succ room =>
          rw [copy, ih room (position + 1) _ (by simpa using fits)]
          congr 1
          funext index
          rcases Nat.lt_trichotomy index position with before | rfl | after
          · simp [show ¬position + 1 ≤ index by omega, show ¬position ≤ index by omega,
              show index ≠ position by omega]
          · simp
          · have place : index - position = index - (position + 1) + 1 := by omega
            rw [if_pos (show position + 1 ≤ index by omega), if_pos (Nat.le_of_lt after), place,
              List.getElem?_cons_succ, if_neg (show index ≠ position by omega)]

theorem writeLoop_keeps (bf : Nat → BitVec 8) (secLen i : Nat) (run : Run) :
    ∀ read ∈ run.reads, read ∈ (writeLoop bf secLen i run).reads := by
  fun_induction writeLoop bf secLen i run with
  | case1 i run within ih =>
      intro read inside
      exact ih read (List.mem_append_left _ inside)
  | case2 i run ended => exact fun _ inside => inside

theorem writeLoop_overreads (bf : Nat → BitVec 8) (secLen i : Nat) (run : Run)
    (within : i ≤ secLen) :
    ∃ read ∈ (writeLoop bf secLen i run).reads, read.2 ≤ read.1 := by
  fun_induction writeLoop bf secLen i run with
  | case1 i run _ ih =>
      by_cases more : i + 4 ≤ secLen
      · exact ih more
      · refine ⟨(i + 3, secLen), writeLoop_keeps _ _ _ _ _ ?_, by dsimp only; omega⟩
        simp
  | case2 i run ended => exact absurd within ended

theorem preloadSection_keeps (bf : Nat → BitVec 8) (secAddr secLen : Nat) (run : Run) :
    ∀ read ∈ run.reads, read ∈ (preloadSection bf secAddr secLen run).reads :=
  fun read inside => writeLoop_keeps bf secLen 0 { run with target := _ } read inside

theorem preloadSection_overreads (bf : Nat → BitVec 8) (secAddr secLen : Nat) (run : Run) :
    ∃ read ∈ (preloadSection bf secAddr secLen run).reads, read.2 ≤ read.1 :=
  writeLoop_overreads bf secLen 0 _ (Nat.zero_le secLen)

/-- The bytes that a section overwrites: its length rounded down to words, and one more word. -/
def written (secLen : Nat) : Nat := 4 * (secLen / 4 + 1)

theorem preloadSection_memory (bf : Nat → BitVec 8) (secAddr secLen : Nat) (run : Run)
    (fits : written secLen ≤ 2 ^ 32) (byte : BitVec 32) :
    (preloadSection bf secAddr secLen run).target.memory byte =
      if (byte - BitVec.ofNat 32 secAddr).toNat < written secLen then
        bf (byte - BitVec.ofNat 32 secAddr).toNat
      else run.target.memory byte := by
  have loop := writeLoop_memory bf secLen (secLen / 4 + 1) 0
    { run with
      target :=
        jtagWrite (jtagWrite run.target sbcs jtagInitSbcs) sbAddr0 (BitVec.ofNat 32 secAddr) }
    (by omega) (by omega) fits byte
  rw [Nat.zero_add] at loop
  exact loop

def buffer (heap : Nat → Nat → BitVec 8) (file : File) (ph : Phdr) (index : Nat) : BitVec 8 :=
  if index < ph.pFilesz then file.buf (ph.pOffset + index) else heap ph.pPaddr index

def preloadSegment (heap : Nat → Nat → BitVec 8) (file : File) (run : Run) (ph : Phdr) : Run :=
  preloadSection (buffer heap file ph) ph.pPaddr ph.pMemsz run

theorem readSection_eq {heap : Nat → Nat → BitVec 8} {file : File} {loader : Loader} {ph : Phdr}
    (present : loader.mems ph.pPaddr = some (segmentBytes file ph))
    (sized : ph.pFilesz ≤ ph.pMemsz) :
    readSection loader ph.pPaddr ph.pMemsz (heap ph.pPaddr) = some (buffer heap file ph) := by
  have fits : (segmentBytes file ph).length ≤ ph.pMemsz := by simpa [segmentBytes] using sized
  rw [readSection, present, Option.bind_some, copy_eq _ _ _ _ fits]
  congr 1
  funext index
  by_cases inside : index < ph.pFilesz
  · simp [buffer, segmentBytes, inside]
  · simp [buffer, segmentBytes, inside]

theorem preloadLoop_eq {heap : Nat → Nat → BitVec 8} {file : File} (segments : List Phdr)
    {loader : Loader} (run : Run)
    (remaining : loader.sections.drop loader.sectionIndex = segments.map Phdr.toSection)
    (present : ∀ ph ∈ segments, loader.mems ph.pPaddr = some (segmentBytes file ph))
    (sized : ∀ ph ∈ segments, ph.pFilesz ≤ ph.pMemsz) :
    preloadLoop heap loader run = some (segments.foldl (preloadSegment heap file) run) := by
  induction segments generalizing loader run with
  | nil =>
      have ended : getSection loader = none := by
        have beyond := List.drop_eq_nil_iff.mp remaining
        simp [getSection, beyond]
      rw [preloadLoop]
      split
      · rfl
      · rename_i found
        rw [ended] at found
        cases found
  | cons ph segments ih =>
      have head : loader.sections[loader.sectionIndex]? = some ph.toSection := by
        have first := congrArg List.head? remaining
        simpa using first
      have tail : loader.sections.drop (loader.sectionIndex + 1) =
          segments.map Phdr.toSection := by
        have rest := congrArg List.tail remaining
        simpa using rest
      have current : getSection loader =
          some (ph.toSection, { loader with sectionIndex := loader.sectionIndex + 1 }) := by
        rw [getSection, head, Option.map_some]
      rw [preloadLoop]
      split
      · rename_i found
        rw [current] at found
        cases found
      · rename_i found
        rw [current] at found
        cases found
        rw [readSection_eq (present ph (List.mem_cons_self ..)) (sized ph (List.mem_cons_self ..)),
          Option.bind_some, List.foldl_cons]
        exact ih _ tail (fun other inside => present other (List.mem_cons_of_mem _ inside))
          fun other inside => sized other (List.mem_cons_of_mem _ inside)

end Atalanta.JtagPreload
