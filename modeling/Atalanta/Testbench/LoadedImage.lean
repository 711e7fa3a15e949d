import Atalanta.Testbench.JtagPreload
import Mathlib.Data.List.Pairwise

/-! What the target holds after a preload, against the image that the file describes. -/

namespace Atalanta.JtagPreload

open ElfLoader WordMemory

structure WellFormed (segments : List Phdr) : Prop where
  aligned : ∀ ph ∈ segments, ph.pPaddr % 4 = 0
  sized : ∀ ph ∈ segments, ph.pFilesz ≤ ph.pMemsz
  disjoint : segments.Pairwise fun left right =>
    ∀ address, ¬(left.Contains address ∧ right.Contains address)

def ImageWritten (file : File) (memory : Memory) : Prop :=
  ∀ ph ∈ segmentsOf file, ∀ index < ph.pFilesz,
    memory (BitVec.ofNat 32 (ph.pPaddr + index)) = file.buf (ph.pOffset + index)

def OthersKept (file : File) (before memory : Memory) : Prop :=
  ∀ word < 2 ^ 30,
    (∀ ph ∈ segmentsOf file, ∀ index < ph.pMemsz, (ph.pPaddr + index) / 4 ≠ word) →
    ∀ byte < 4, memory (BitVec.ofNat 32 (4 * word + byte)) =
      before (BitVec.ofNat 32 (4 * word + byte))

def ReadsInside (run : Run) : Prop := ∀ read ∈ run.reads, read.1 < read.2

structure WritesExactly (file : File) (before : Memory) (run : Run) : Prop where
  image : ImageWritten file run.target.memory
  others : OthersKept file before run.target.memory
  inside : ReadsInside run

theorem loads_of_mem {file : File} {ph : Phdr} (inside : ph ∈ segmentsOf file) : ph.Loads := by
  unfold segmentsOf at inside
  split at inside
  · exact of_decide_eq_true (List.mem_filter.mp inside).2
  · cases inside

section Segments

variable {file : File} (wf : WellFormed (segmentsOf file))

include wf

theorem WellFormed.apart : (segmentsOf file).Pairwise Phdr.Apart := by
  refine wf.disjoint.imp_of_mem fun {left right} leftIn rightIn disjoint => ?_
  have leftLoads := (loads_of_mem leftIn).2.1
  have rightLoads := (loads_of_mem rightIn).2.1
  have place := disjoint (max left.pPaddr right.pPaddr)
  simp only [Phdr.Contains] at place
  unfold Phdr.Apart
  omega

theorem WellFormed.apart_of_mem {left right : Phdr} (leftIn : left ∈ segmentsOf file)
    (rightIn : right ∈ segmentsOf file) (different : left ≠ right) : left.Apart right :=
  wf.apart.forall leftIn rightIn different

theorem WellFormed.distinct :
    (segmentsOf file).Pairwise fun left right => left.pPaddr ≠ right.pPaddr := by
  refine wf.apart.imp_of_mem fun {left right} leftIn rightIn apart => ?_
  have leftLoads := (loads_of_mem leftIn).2.1
  have rightLoads := (loads_of_mem rightIn).2.1
  unfold Phdr.Apart at apart
  omega

theorem preload_eq {loader : Loader} (accepted : readElf file = some (loader, true))
    (heap : Nat → Nat → BitVec 8) (target : Target) :
    jtagElfPreload heap file target =
      some ((segmentsOf file).foldl (preloadSegment heap file) ⟨target, []⟩,
        BitVec.ofNat 32 loader.entry) := by
  obtain ⟨sections, start, mems⟩ := readElf_accepted accepted
  have present : ∀ ph ∈ segmentsOf file, loader.mems ph.pPaddr = some (segmentBytes file ph) := by
    intro ph inside
    rw [mems, find_paddr wf.distinct inside, Option.map_some]
  have remaining : loader.sections.drop loader.sectionIndex =
      (segmentsOf file).map Phdr.toSection := by
    rw [start, List.drop_zero, sections]
  have loop : preloadLoop heap loader ⟨target, []⟩ =
      some ((segmentsOf file).foldl (preloadSegment heap file) ⟨target, []⟩) :=
    preloadLoop_eq (segmentsOf file) ⟨target, []⟩ remaining present wf.sized
  rw [jtagElfPreload, accepted, Option.bind_some]
  dsimp only
  rw [loop, Option.map_some]

end Segments

theorem foldl_keeps (heap : Nat → Nat → BitVec 8) (file : File) (segments : List Phdr) (run : Run) :
    ∀ read ∈ run.reads, read ∈ (segments.foldl (preloadSegment heap file) run).reads := by
  induction segments generalizing run with
  | nil => exact fun _ inside => inside
  | cons ph segments ih =>
      intro read inside
      exact ih _ read (preloadSection_keeps _ _ _ run read inside)

theorem readsInside_iff (heap : Nat → Nat → BitVec 8) (file : File) (segments : List Phdr)
    (target : Target) :
    ReadsInside (segments.foldl (preloadSegment heap file) ⟨target, []⟩) ↔ segments = [] := by
  constructor
  · intro inside
    cases segments with
    | nil => rfl
    | cons ph segments =>
        obtain ⟨read, done, beyond⟩ :=
          preloadSection_overreads (buffer heap file ph) ph.pPaddr ph.pMemsz ⟨target, []⟩
        have bounded := inside read (foldl_keeps heap file segments _ read done)
        omega
  · rintro rfl
    intro read inside
    cases inside

open Overlay in
def pieceOf (heap : Nat → Nat → BitVec 8) (file : File) (ph : Phdr) :
    Piece (BitVec 32) (BitVec 8) where
  covers byte := decide ((byte - BitVec.ofNat 32 ph.pPaddr).toNat < written ph.pMemsz)
  value byte := buffer heap file ph (byte - BitVec.ofNat 32 ph.pPaddr).toNat

theorem foldl_memory (heap : Nat → Nat → BitVec 8) (file : File) (segments : List Phdr) (run : Run)
    (fits : ∀ ph ∈ segments, written ph.pMemsz ≤ 2 ^ 32) :
    (segments.foldl (preloadSegment heap file) run).target.memory =
      (segments.map (pieceOf heap file)).foldl Overlay.write run.target.memory := by
  induction segments generalizing run with
  | nil => rfl
  | cons ph segments ih =>
      rw [List.foldl_cons, List.map_cons, List.foldl_cons,
        ih _ fun other inside => fits other (List.mem_cons_of_mem _ inside)]
      congr 1
      funext byte
      rw [preloadSegment, preloadSection_memory _ _ _ _ (fits ph (List.mem_cons_self ..))]
      simp [Overlay.write, pieceOf]

/-- The segments end below the top of the address space, and the `int` that counts the bytes in
`write` does not overflow. -/
def Fits (segments : List Phdr) : Prop :=
  ∀ ph ∈ segments, ph.pPaddr + ph.pMemsz < 2 ^ 32 ∧ ph.pFilesz < 2 ^ 31

theorem offset_toNat {base address : Nat} (below : base < 2 ^ 32) (small : address < 2 ^ 32) :
    (BitVec.ofNat 32 address - BitVec.ofNat 32 base).toNat =
      if base ≤ address then address - base else address + 2 ^ 32 - base := by
  rw [BitVec.toNat_sub, BitVec.toNat_ofNat, BitVec.toNat_ofNat, Nat.mod_eq_of_lt below,
    Nat.mod_eq_of_lt small]
  split <;> omega

theorem value_eq (heap : Nat → Nat → BitVec 8) (file : File) (ph : Phdr) {index : Nat}
    (within : ph.pPaddr + index < 2 ^ 32) :
    (pieceOf heap file ph).value (BitVec.ofNat 32 (ph.pPaddr + index)) =
      buffer heap file ph index := by
  simp only [pieceOf]
  rw [offset_toNat (by omega) within, if_pos (by omega), Nat.add_sub_cancel_left]

section Places

variable {file : File} (wf : WellFormed (segmentsOf file)) (fits : Fits (segmentsOf file))
  {heap : Nat → Nat → BitVec 8} {ph : Phdr} (inside : ph ∈ segmentsOf file)

include wf fits inside

theorem written_fits : ph.pPaddr + written ph.pMemsz ≤ 2 ^ 32 := by
  have aligned := wf.aligned ph inside
  have below := fits ph inside
  unfold written
  omega

theorem covers_iff {address : Nat} (small : address < 2 ^ 32) :
    (pieceOf heap file ph).covers (BitVec.ofNat 32 address) = true ↔
      ph.pPaddr ≤ address ∧ address < ph.pPaddr + written ph.pMemsz := by
  have top := written_fits wf fits inside
  have below := fits ph inside
  simp only [pieceOf, decide_eq_true_eq]
  rw [offset_toNat (by omega) small]
  split <;> omega

omit fits in
theorem overruns_of_covers {other : Phdr} (otherIn : other ∈ segmentsOf file)
    (apart : other.Apart ph) {index : Nat} (within : index < ph.pMemsz)
    (above : other.pPaddr ≤ ph.pPaddr + index)
    (below : ph.pPaddr + index < other.pPaddr + written other.pMemsz) : other.Overruns ph := by
  have aligned := wf.aligned ph inside
  have otherAligned := wf.aligned other otherIn
  unfold written at below
  unfold Phdr.Apart at apart
  unfold Phdr.Overruns
  omega

end Places

def finalMemory (heap : Nat → Nat → BitVec 8) (file : File) (target : Target) : Memory :=
  ((segmentsOf file).foldl (preloadSegment heap file) ⟨target, []⟩).target.memory

theorem ends_differ {file : File} {left right : Phdr} (leftIn : left ∈ segmentsOf file)
    (rightIn : right ∈ segmentsOf file) (apart : left.Apart right) :
    left.pPaddr + left.pMemsz ≠ right.pPaddr + right.pMemsz := by
  have leftLoads := (loads_of_mem leftIn).2.1
  have rightLoads := (loads_of_mem rightIn).2.1
  unfold Phdr.Apart at apart
  omega

theorem succ_ne (byte : BitVec 8) : byte + 1 ≠ byte := by bv_omega

theorem pairwise_of_splits {α : Type} {rel : α → α → Prop} {list : List α}
    (splits : ∀ before first middle second after,
      list = before ++ first :: (middle ++ second :: after) → rel first second) :
    list.Pairwise rel := by
  induction list with
  | nil => exact List.Pairwise.nil
  | cons head tail ih =>
      refine List.pairwise_cons.mpr ⟨fun second inside => ?_, ih ?_⟩
      · obtain ⟨middle, after, rfl⟩ := List.append_of_mem inside
        exact splits [] head middle second after rfl
      · intro before first middle second after split
        exact splits (head :: before) first middle second after (by rw [split]; rfl)

section Final

variable {file : File} (wf : WellFormed (segmentsOf file)) (fits : Fits (segmentsOf file))

include wf fits

theorem finalMemory_eq (heap : Nat → Nat → BitVec 8) (target : Target) :
    finalMemory heap file target =
      ((segmentsOf file).map (pieceOf heap file)).foldl Overlay.write target.memory := by
  refine foldl_memory heap file (segmentsOf file) ⟨target, []⟩ fun ph inside => ?_
  have top := written_fits wf fits inside
  omega

/-- The last segment that writes to a place decides. -/
theorem finalMemory_last (heap : Nat → Nat → BitVec 8) (target : Target) {before after : List Phdr}
    {ph : Phdr} (split : segmentsOf file = before ++ ph :: after) {index : Nat}
    (within : ph.pPaddr + index < 2 ^ 32) (reached : index < written ph.pMemsz)
    (free : ∀ later ∈ after, ¬(later.pPaddr ≤ ph.pPaddr + index ∧
      ph.pPaddr + index < later.pPaddr + written later.pMemsz)) :
    finalMemory heap file target (BitVec.ofNat 32 (ph.pPaddr + index)) =
      buffer heap file ph index := by
  have inside : ph ∈ segmentsOf file := by simp [split]
  rw [finalMemory_eq wf fits, split, List.map_append, List.map_cons,
    Overlay.foldl_write_last]
  · exact value_eq heap file ph within
  · exact (covers_iff wf fits inside within).mpr ⟨Nat.le_add_right .., by omega⟩
  · intro piece listed
    obtain ⟨later, laterIn, rfl⟩ := List.mem_map.mp listed
    rw [← Bool.not_eq_true, covers_iff wf fits (by simp [split, laterIn]) within]
    exact free later laterIn

theorem finalMemory_free (heap : Nat → Nat → BitVec 8) (target : Target) {address : Nat}
    (small : address < 2 ^ 32)
    (free : ∀ ph ∈ segmentsOf file, ¬(ph.pPaddr ≤ address ∧
      address < ph.pPaddr + written ph.pMemsz)) :
    finalMemory heap file target (BitVec.ofNat 32 address) =
      target.memory (BitVec.ofNat 32 address) := by
  rw [finalMemory_eq wf fits, Overlay.foldl_write_free]
  intro piece listed
  obtain ⟨ph, inside, rfl⟩ := List.mem_map.mp listed
  rw [← Bool.not_eq_true, covers_iff wf fits inside small]
  exact free ph inside

/-- A segment leaves what lies behind its buffer at its end, unless a later one writes there. -/
theorem finalMemory_overrun (heap : Nat → Nat → BitVec 8) (target : Target)
    {before after : List Phdr} {ph : Phdr} (split : segmentsOf file = before ++ ph :: after)
    (free : ∀ later ∈ after, ¬(later.pPaddr ≤ ph.pPaddr + ph.pMemsz ∧
      ph.pPaddr + ph.pMemsz < later.pPaddr + written later.pMemsz)) :
    finalMemory heap file target (BitVec.ofNat 32 (ph.pPaddr + ph.pMemsz)) =
      heap ph.pPaddr ph.pMemsz := by
  have inside : ph ∈ segmentsOf file := by simp [split]
  have below := (fits ph inside).1
  have sized := wf.sized ph inside
  rw [finalMemory_last wf fits heap target split below (by unfold written; omega) free, buffer,
    if_neg (by omega)]

theorem ordered_of_imageWritten
    (image : ∀ heap target, ImageWritten file (finalMemory heap file target)) :
    (segmentsOf file).Pairwise fun earlier later => ¬later.Overruns earlier := by
  refine pairwise_of_splits fun before earlier middle later after split overruns => ?_
  have earlierIn : earlier ∈ segmentsOf file := by simp [split]
  have laterIn : later ∈ segmentsOf file := by simp [split]
  have content := Nat.pos_of_ne_zero (loads_of_mem earlierIn).2.2
  have apart := wf.apart
  rw [split] at apart
  have afterEarlier := List.pairwise_cons.mp (List.pairwise_append.mp apart).2.1
  have afterLater := List.pairwise_cons.mp (List.pairwise_append.mp afterEarlier.2).2.1
  -- what lies behind the buffer of the later segment differs from the byte of the file
  let heap : Nat → Nat → BitVec 8 := fun _ _ => file.buf earlier.pOffset + 1
  have last : segmentsOf file = (before ++ earlier :: middle) ++ later :: after := by simp [split]
  have overrun : finalMemory heap file ⟨0, fun _ => 0⟩
      (BitVec.ofNat 32 (later.pPaddr + later.pMemsz)) = file.buf earlier.pOffset + 1 := by
    refine finalMemory_overrun wf fits heap ⟨0, fun _ => 0⟩ last ?_
    rintro other otherIn ⟨above, under⟩
    have otherMem : other ∈ segmentsOf file := by simp [split, otherIn]
    rw [overruns.2] at above under
    have otherOverruns : other.Overruns earlier :=
      overruns_of_covers wf earlierIn otherMem
        (afterEarlier.1 other (by simp [otherIn])).symm (Nat.lt_of_lt_of_le content
          (wf.sized earlier earlierIn)) above under
    exact ends_differ laterIn otherMem (afterLater.1 other otherIn)
      (overruns.2.trans otherOverruns.2.symm)
  have first := image heap ⟨0, fun _ => 0⟩ earlier earlierIn 0 content
  rw [Nat.add_zero, Nat.add_zero, ← overruns.2, overrun] at first
  exact succ_ne _ first

theorem imageWritten_of_ordered
    (ordered : (segmentsOf file).Pairwise fun earlier later => ¬later.Overruns earlier)
    (heap : Nat → Nat → BitVec 8) (target : Target) :
    ImageWritten file (finalMemory heap file target) := by
  intro ph inside index within
  obtain ⟨before, after, split⟩ := List.append_of_mem inside
  have sized := wf.sized ph inside
  have below := fits ph inside
  rw [finalMemory_last wf fits heap target split (by omega) (by unfold written; omega), buffer,
    if_pos within]
  rintro later laterIn ⟨above, under⟩
  have apart := wf.apart
  rw [split] at ordered apart
  have laterApart := (List.pairwise_cons.mp (List.pairwise_append.mp apart).2.1).1 later laterIn
  have noOverrun := (List.pairwise_cons.mp (List.pairwise_append.mp ordered).2.1).1 later laterIn
  exact noOverrun (overruns_of_covers wf inside (by simp [split, laterIn]) laterApart.symm
    (by omega) above under)

/-- The image is right if and only if no segment overruns into one loaded before it. -/
theorem imageWritten_iff :
    (∀ heap target, ImageWritten file (finalMemory heap file target)) ↔
      (segmentsOf file).Pairwise fun earlier later => ¬later.Overruns earlier :=
  ⟨ordered_of_imageWritten wf fits, imageWritten_of_ordered wf fits⟩

theorem followed_of_othersKept
    (kept : ∀ heap target, OthersKept file target.memory (finalMemory heap file target))
    {ph : Phdr} (inside : ph ∈ segmentsOf file) (whole : ph.pMemsz % 4 = 0) :
    ∃ next ∈ segmentsOf file, ph.Overruns next := by
  by_contra alone
  have aligned := wf.aligned ph inside
  have below := (fits ph inside).1
  have nonempty := (loads_of_mem inside).2.1
  obtain ⟨word, place⟩ : ∃ word, ph.pPaddr + ph.pMemsz = 4 * word :=
    ⟨(ph.pPaddr + ph.pMemsz) / 4, by omega⟩
  have unused : ∀ other ∈ segmentsOf file, ∀ index < other.pMemsz,
      (other.pPaddr + index) / 4 ≠ word := by
    intro other otherIn index within same
    have otherAligned := wf.aligned other otherIn
    have starts : other.pPaddr ≠ 4 * word := fun start =>
      alone ⟨other, otherIn, whole, place.trans start.symm⟩
    by_cases own : other = ph
    · subst own
      omega
    · have apart := wf.apart_of_mem otherIn inside own
      unfold Phdr.Apart at apart
      omega
  obtain ⟨before, after, split⟩ := List.append_of_mem inside
  have apart := wf.apart
  rw [split] at apart
  have afterThis := List.pairwise_cons.mp (List.pairwise_append.mp apart).2.1
  have overrun : finalMemory (fun _ _ => 1) file ⟨0, fun _ => 0⟩
      (BitVec.ofNat 32 (ph.pPaddr + ph.pMemsz)) = 1 := by
    refine finalMemory_overrun wf fits (fun _ _ => 1) ⟨0, fun _ => 0⟩ split ?_
    rintro other otherIn ⟨above, under⟩
    have otherMem : other ∈ segmentsOf file := by simp [split, otherIn]
    have otherAligned := wf.aligned other otherMem
    have differ := ends_differ inside otherMem (afterThis.1 other otherIn)
    have free := unused other otherMem (ph.pPaddr + ph.pMemsz - other.pPaddr)
    unfold written at under
    omega
  have same := kept (fun _ _ => 1) ⟨0, fun _ => 0⟩ word (by omega) unused 0 (by decide)
  rw [Nat.add_zero, ← place, overrun] at same
  change (1 : BitVec 8) = 0 at same
  exact absurd same (by decide)

theorem othersKept_of_followed
    (followed : ∀ ph ∈ segmentsOf file, ph.pMemsz % 4 = 0 →
      ∃ next ∈ segmentsOf file, ph.Overruns next)
    (heap : Nat → Nat → BitVec 8) (target : Target) :
    OthersKept file target.memory (finalMemory heap file target) := by
  intro word small unused byte within
  refine finalMemory_free wf fits heap target (by omega) ?_
  rintro ph inside ⟨above, below⟩
  have aligned := wf.aligned ph inside
  have content := Nat.pos_of_ne_zero (loads_of_mem inside).2.1
  have free := unused ph inside (4 * word + byte - ph.pPaddr)
  have lastByte := unused ph inside (ph.pMemsz - 1)
  unfold written at below
  have whole : ph.pMemsz % 4 = 0 := by omega
  obtain ⟨next, nextIn, _, start⟩ := followed ph inside whole
  have nonempty := Nat.pos_of_ne_zero (loads_of_mem nextIn).2.1
  have first := unused next nextIn 0 nonempty
  omega

/-- Nothing else is changed if and only if every segment of whole words is followed by another
one. -/
theorem othersKept_iff :
    (∀ heap target, OthersKept file target.memory (finalMemory heap file target)) ↔
      ∀ ph ∈ segmentsOf file, ph.pMemsz % 4 = 0 → ∃ next ∈ segmentsOf file, ph.Overruns next :=
  ⟨fun kept _ inside whole => followed_of_othersKept wf fits kept inside whole,
    othersKept_of_followed wf fits⟩

end Final

/-- The preload meets its purpose if and only if there is nothing to load: each section makes it
read behind the buffer. Without that, the image is right exactly if no segment ends in whole
words where one loaded before it starts, and the rest of the memory is kept exactly if every
segment of whole words is followed by another one. -/
theorem preload_exact_iff {file : File} {loader : Loader}
    (accepted : readElf file = some (loader, true)) (wf : WellFormed (segmentsOf file)) :
    (∀ heap target, ∃ run entry, jtagElfPreload heap file target = some (run, entry) ∧
      (WritesExactly file target.memory run ↔ segmentsOf file = [])) ∧
    (Fits (segmentsOf file) →
      ((∀ heap target run entry, jtagElfPreload heap file target = some (run, entry) →
          ImageWritten file run.target.memory) ↔
        (segmentsOf file).Pairwise fun earlier later => ¬later.Overruns earlier) ∧
      ((∀ heap target run entry, jtagElfPreload heap file target = some (run, entry) →
          OthersKept file target.memory run.target.memory) ↔
        ∀ ph ∈ segmentsOf file, ph.pMemsz % 4 = 0 →
          ∃ next ∈ segmentsOf file, ph.Overruns next)) := by
  have preload := preload_eq wf accepted
  refine ⟨fun heap target => ⟨_, _, preload heap target, ?_⟩, fun fits => ⟨?_, ?_⟩⟩
  · constructor
    · exact fun exactly => (readsInside_iff heap file _ target).mp exactly.inside
    · intro none
      rw [none]
      refine ⟨fun ph inside => ?_, fun _ _ _ _ _ => rfl, (readsInside_iff _ _ _ target).mpr rfl⟩
      rw [none] at inside
      cases inside
  · rw [← imageWritten_iff wf fits]
    constructor
    · exact fun image heap target => image heap target _ _ (preload heap target)
    · intro image heap target run entry same
      rw [preload heap target] at same
      cases same
      exact image heap target
  · rw [← othersKept_iff wf fits]
    constructor
    · exact fun kept heap target => kept heap target _ _ (preload heap target)
    · intro kept heap target run entry same
      rw [preload heap target] at same
      cases same
      exact kept heap target

def words (values : List (BitVec 32)) : List (BitVec 8) :=
  values.flatMap fun value => (List.range 4).map (byteAt value)

def twoSegments : File where
  size := 176
  buf offset :=
    let ident := words [0x464c457f, 0x00010101, 0, 0]
    let ehdr := words [0x00f30002, 1, 0x1000, 64, 136, 0, 0x00200034, 0x00280002, 1, 0, 0, 0]
    let first := words [1, 128, 0x1004, 0x1004, 4, 4, 7, 4]
    let second := words [1, 132, 0x1000, 0x1000, 4, 4, 7, 4]
    let content := words [0x11111111, 0x22222222]
    ((ident ++ ehdr ++ first ++ second ++ content)[offset]?).getD 0

theorem segmentsOf_twoSegments :
    segmentsOf twoSegments = [⟨1, 128, 0x1004, 4, 4⟩, ⟨1, 132, 0x1000, 4, 4⟩] := by decide

theorem twoSegments_accepted : ∃ loader, readElf twoSegments = some (loader, true) := by
  have checks : (readElf twoSegments).map Prod.snd = some true := by decide
  obtain ⟨⟨loader, _⟩, result, rfl⟩ := Option.map_eq_some_iff.mp checks
  exact ⟨loader, result⟩

theorem wellFormed_twoSegments : WellFormed (segmentsOf twoSegments) := by
  rw [segmentsOf_twoSegments]
  refine ⟨by decide, by decide, List.pairwise_pair.mpr fun address => ?_⟩
  simp only [Phdr.Contains]
  omega

theorem preload_exact_two_segments :
    ∃ loader, readElf twoSegments = some (loader, true) ∧
      ∀ heap target, ∃ run entry, jtagElfPreload heap twoSegments target = some (run, entry) ∧
        ¬WritesExactly twoSegments target.memory run := by
  obtain ⟨loader, accepted⟩ := twoSegments_accepted
  refine ⟨loader, accepted, fun heap target => ?_⟩
  obtain ⟨run, entry, preload, exactly⟩ :=
    (preload_exact_iff accepted wellFormed_twoSegments).1 heap target
  refine ⟨run, entry, preload, fun holds => ?_⟩
  have empty := exactly.mp holds
  rw [segmentsOf_twoSegments] at empty
  cases empty

/-- Both buffers are read behind their end, and the segment at 0x1000 overwrites the start of the
one at 0x1004, which is loaded before it. -/
theorem image_overwritten :
    WellFormed (segmentsOf twoSegments) ∧
      (∃ loader, readElf twoSegments = some (loader, true)) ∧
      (∀ heap target run entry, jtagElfPreload heap twoSegments target = some (run, entry) →
        ¬ReadsInside run) ∧
      ¬∀ heap target run entry, jtagElfPreload heap twoSegments target = some (run, entry) →
        ImageWritten twoSegments run.target.memory := by
  obtain ⟨loader, accepted⟩ := twoSegments_accepted
  have wf := wellFormed_twoSegments
  have preload := preload_eq wf accepted
  refine ⟨wf, ⟨loader, accepted⟩, fun heap target run entry same inside => ?_, fun image => ?_⟩
  · rw [preload heap target] at same
    cases same
    have empty := (readsInside_iff heap _ _ target).mp inside
    rw [segmentsOf_twoSegments] at empty
    cases empty
  · have fits : Fits (segmentsOf twoSegments) := by
      rw [segmentsOf_twoSegments, Fits]
      decide
    have ordered := (imageWritten_iff wf fits).mp fun heap target =>
      image heap target _ _ (preload heap target)
    rw [segmentsOf_twoSegments] at ordered
    exact List.pairwise_pair.mp ordered ⟨rfl, rfl⟩

end Atalanta.JtagPreload
