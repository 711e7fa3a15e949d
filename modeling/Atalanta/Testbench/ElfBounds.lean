import Atalanta.Library.Trace
import Atalanta.Testbench.ElfLoader

/-! The bytes that `load_elf` reads, in their order, and the sums of header fields on which it
depends whether all of them lie in the file. -/

namespace Atalanta.ElfLoader

open Trace

inductive Stop where
  | errorReturn
  | assertion
  | undefined
deriving DecidableEq, Repr

/-- The offsets from `buf` that are read, in an address space that wraps around. -/
abbrev Reads := Trace Nat Stop

def reads (spans : List (Nat × Nat)) : Reads where
  events := spans.flatMap fun (offset, bytes) =>
    (List.range bytes).map fun i => (offset + i) % 2 ^ 64
  stop := none

def cString (text : List Char) : List (BitVec 8) :=
  text.map (fun c => BitVec.ofNat 8 c.toNat) ++ [0]

def strtab : List (BitVec 8) := cString ['.', 's', 't', 'r', 't', 'a', 'b']
def symtab : List (BitVec 8) := cString ['.', 's', 'y', 'm', 't', 'a', 'b']

def strcmpEqual (file : File) : Nat → List (BitVec 8) → Bool
  | _, [] => true
  | offset, c :: text =>
      file.buf (offset % 2 ^ 64) == c && strcmpEqual file (offset + 1) text

def strcmpReads (file : File) : Nat → List (BitVec 8) → Reads
  | _, [] => done
  | offset, c :: text => (reads [(offset, 1)]).andThen <|
      if file.buf (offset % 2 ^ 64) = c then strcmpReads file (offset + 1) text else done

-- the counter of the copying loop is an `int`
def writeReads (offset len : Nat) : Reads :=
  (reads [(offset, min len (2 ^ 31))]).andThen <|
    if len < 2 ^ 31 then done else stopWith .undefined

section Headers

variable (layout : Layout) (file : File)

def readHalf (field : Nat) : Reads := reads [(field, 2)]

def readWords (header : Nat) (fields : List Nat) : Reads :=
  reads (fields.map fun field => (header + field, layout.word))

def contentReads (header : Nat) (ph : Phdr) : Reads :=
  (readWords layout header [layout.pFilesz]).andThen <|
  if ph.pFilesz ≠ 0 then
    (readWords layout header [layout.pOffset, layout.pFilesz]).andThen <|
    if (ph.pOffset + ph.pFilesz) % 2 ^ (8 * layout.word) ≤ file.size then
      (readWords layout header [layout.pPaddr, layout.pMemsz, layout.pPaddr, layout.pFilesz,
        layout.pOffset]).andThen (writeReads ph.pOffset ph.pFilesz)
    else stopWith .assertion
  else done

def zeroBytesReads (header : Nat) (ph : Phdr) : Reads :=
  (readWords layout header [layout.pMemsz, layout.pFilesz]).andThen <|
  if ph.pFilesz < ph.pMemsz then
    readWords layout header [layout.pPaddr, layout.pMemsz, layout.pFilesz]
  else done

def phdrReads (header : Nat) (ph : Phdr) : Reads :=
  (reads [(header, 4)]).andThen <|
  if ph.pType = ptLoad then
    (readWords layout header [layout.pMemsz]).andThen <|
    if ph.pMemsz ≠ 0 then
      (contentReads layout file header ph).andThen (zeroBytesReads layout header ph)
    else done
  else done

def segmentReads (i : Nat) : Reads :=
  phdrReads layout file (phoff layout file + i * layout.sizeofPhdr) (phdr layout file i)

def shstr : Nat := shdr layout file (shstrndx layout file)

def nameTableOffset : Nat := file.read (shstr layout file + layout.shOffset) layout.word
def nameTableSize : Nat := file.read (shstr layout file + layout.shSize) layout.word

def nameAt (i : Nat) : Nat :=
  (nameTableOffset layout file + file.read (shdr layout file i) 4) % 2 ^ 64

-- `max_len` is computed and then not used
def nameReads (i : Nat) : Reads :=
  let header := shdr layout file i
  (readHalf layout.eShstrndx).andThen <|
  (readWords layout (shstr layout file) [layout.shSize]).andThen <|
  (reads [(header, 4), (header, 4)]).andThen <|
  (strcmpReads file (nameAt layout file i) strtab).andThen <|
  if strcmpEqual file (nameAt layout file i) strtab then
    readWords layout header [layout.shOffset]
  else
    (reads [(header, 4)]).andThen <|
    (strcmpReads file (nameAt layout file i) symtab).andThen <|
    if strcmpEqual file (nameAt layout file i) symtab then
      readWords layout header [layout.shOffset]
    else done

def nameTableReads : Reads :=
  let fields := (readHalf layout.eShstrndx).andThen <|
    (readWords layout (shstr layout file) [layout.shOffset]).andThen <|
    (readHalf layout.eShstrndx).andThen <|
    readWords layout (shstr layout file) [layout.shSize]
  fields.andThen <|
  if file.size < (nameTableOffset layout file + nameTableSize layout file) %
      2 ^ (8 * layout.word) then
    fields.andThen (stopWith .errorReturn)
  else
    (readHalf layout.eShstrndx).andThen <|
    (readWords layout (shstr layout file) [layout.shOffset]).andThen <|
    (each (shnum layout file) fun i =>
      (readHalf layout.eShnum).andThen (nameReads layout file i)).andThen <|
    readHalf layout.eShnum

def sectionReads : Reads :=
  let sizes := (readWords layout 0 [layout.eShoff]).andThen (readHalf layout.eShnum)
  let indices := (readHalf layout.eShstrndx).andThen (readHalf layout.eShnum)
  sizes.andThen <|
  if file.size < (shoff layout file + shnum layout file * layout.sizeofShdr) % 2 ^ 64 then
    sizes.andThen (stopWith .errorReturn)
  else indices.andThen <|
    if shnum layout file ≤ shstrndx layout file then indices.andThen (stopWith .errorReturn)
    else nameTableReads layout file

def loadReads : Reads :=
  let sizes := (readWords layout 0 [layout.ePhoff]).andThen (readHalf layout.ePhnum)
  (readWords layout 0 [layout.ePhoff, layout.eShoff]).andThen <|
  sizes.andThen <|
  if file.size < (phoff layout file + phnum layout file * layout.sizeofPhdr) % 2 ^ 64 then
    sizes.andThen (stopWith .errorReturn)
  else
    (readWords layout 0 [layout.eEntry]).andThen <|
    (each (phnum layout file) fun i =>
      (readHalf layout.ePhnum).andThen (segmentReads layout file i)).andThen <|
    (readHalf layout.ePhnum).andThen (sectionReads layout file)

/-! What the checks of `load_elf` compare, in the width of the operands. -/

def ProgramHeadersChecked : Prop :=
  (phoff layout file + phnum layout file * layout.sizeofPhdr) % 2 ^ 64 ≤ file.size

def SegmentChecked (ph : Phdr) : Prop :=
  ph.Loads → (ph.pOffset + ph.pFilesz) % 2 ^ (8 * layout.word) ≤ file.size

def SectionHeadersChecked : Prop :=
  (shoff layout file + shnum layout file * layout.sizeofShdr) % 2 ^ 64 ≤ file.size ∧
    shstrndx layout file < shnum layout file

def NameTableChecked : Prop :=
  (nameTableOffset layout file + nameTableSize layout file) % 2 ^ (8 * layout.word) ≤ file.size

def SegmentFits (ph : Phdr) : Prop :=
  ph.Loads → ph.pOffset + ph.pFilesz ≤ file.size ∧ ph.pFilesz < 2 ^ 31

/-- The bytes from the offset on fill the whole text or differ from it before the file ends. -/
def Decided (offset : Nat) (text : List (BitVec 8)) : Prop :=
  offset + text.length ≤ file.size ∨
    ∃ k, ∃ inside : k < text.length, offset + k < file.size ∧ file.buf (offset + k) ≠ text[k]

structure NamesFit : Prop where
  sectionHeaders : shoff layout file + shnum layout file * layout.sizeofShdr ≤ file.size
  names : ∀ i < shnum layout file, ∀ text ∈ [strtab, symtab],
    Decided file (nameAt layout file i) text

structure SectionsFit : Prop where
  nameTable : ∀ field ∈ [layout.shOffset, layout.shSize],
    (shstr layout file + field) % 2 ^ 64 + layout.word ≤ file.size
  names : NameTableChecked layout file → NamesFit layout file

structure SumsFit : Prop where
  programHeaders : phoff layout file + phnum layout file * layout.sizeofPhdr ≤ file.size
  segments : ∀ i < phnum layout file,
    (∀ j ≤ i, SegmentChecked layout file (phdr layout file j)) →
    SegmentFits file (phdr layout file i)
  sections : (∀ i < phnum layout file, SegmentChecked layout file (phdr layout file i)) →
    SectionHeadersChecked layout file → SectionsFit layout file

end Headers

/-- Every read lies in the file, and nothing is left undefined. -/
def Inside (file : File) (trace : Reads) : Prop :=
  trace.Holds (· < file.size) (· ≠ .undefined)

/-- `st_size` is signed. -/
structure MappedFile extends File where
  signed : size < 2 ^ 63

structure Layout.WellPlaced (layout : Layout) : Prop where
  word : 4 ≤ layout.word ∧ layout.word ≤ 8
  ehdr : ∀ field ∈ [layout.ePhoff, layout.eShoff, layout.eEntry], field + layout.word ≤ 64
  halves : ∀ field ∈ [layout.ePhnum, layout.eShnum, layout.eShstrndx], field + 2 ≤ 64
  phdr : ∀ field ∈ [0, layout.pOffset, layout.pPaddr, layout.pFilesz, layout.pMemsz],
    field + layout.word ≤ layout.sizeofPhdr
  shdr : ∀ field ∈ [0, layout.shOffset, layout.shSize],
    field + layout.word ≤ layout.sizeofShdr
  sizes : layout.sizeofPhdr ≤ 64 ∧ layout.sizeofShdr ≤ 64

theorem elf32_wellPlaced : elf32.WellPlaced := by
  constructor <;> decide

theorem elf64_wellPlaced : elf64.WellPlaced := by
  constructor <;> decide

theorem layoutOf_wellPlaced {file : File} {layout : Layout}
    (accepted : layoutOf file = some layout) : layout.WellPlaced ∧ 64 ≤ file.size := by
  unfold layoutOf at accepted
  split at accepted
  · cases accepted
  · have room : 64 ≤ file.size := by omega
    split at accepted
    · exact ⟨Option.some.inj accepted ▸ elf32_wellPlaced, room⟩
    · split at accepted
      · exact ⟨Option.some.inj accepted ▸ elf64_wellPlaced, room⟩
      · cases accepted

theorem File.read_lt (file : File) (bytes : Nat) :
    ∀ offset, file.read offset bytes < 2 ^ (8 * bytes) := by
  induction bytes with
  | zero => exact fun offset => Nat.one_pos
  | succ bytes ih =>
      intro offset
      have byte := (file.buf offset).isLt
      have rest := ih (offset + 1)
      rw [File.read, Nat.mul_succ, Nat.pow_add]
      omega

@[simp] theorem stop_reads (spans : List (Nat × Nat)) : (reads spans).stop = none := rfl

@[simp] theorem stop_readHalf (field : Nat) : (readHalf field).stop = none := rfl

@[simp] theorem stop_readWords (layout : Layout) (header : Nat) (fields : List Nat) :
    (readWords layout header fields).stop = none := rfl

section Stops

variable (layout : Layout) (file : File) (header : Nat) (ph : Phdr)

def segmentStop : Option Stop :=
  if ph.Loads then
    if (ph.pOffset + ph.pFilesz) % 2 ^ (8 * layout.word) ≤ file.size then
      if ph.pFilesz < 2 ^ 31 then none else some .undefined
    else some .assertion
  else none

theorem stop_writeReads (offset len : Nat) :
    (writeReads offset len).stop = if len < 2 ^ 31 then none else some .undefined := by
  rw [writeReads, stop_andThen, stop_reads, Option.none_or]
  split <;> rfl

theorem stop_zeroBytesReads : (zeroBytesReads layout header ph).stop = none := by
  rw [zeroBytesReads, stop_andThen, stop_readWords, Option.none_or]
  split <;> rfl

theorem stop_contentReads : (contentReads layout file header ph).stop =
    if ph.pFilesz ≠ 0 then
      if (ph.pOffset + ph.pFilesz) % 2 ^ (8 * layout.word) ≤ file.size then
        if ph.pFilesz < 2 ^ 31 then none else some .undefined
      else some .assertion
    else none := by
  rw [contentReads, stop_andThen, stop_readWords, Option.none_or]
  split
  · rw [stop_andThen, stop_readWords, Option.none_or]
    split
    · rw [stop_andThen, stop_readWords, Option.none_or, stop_writeReads]
    · rfl
  · rfl

theorem stop_phdrReads :
    (phdrReads layout file header ph).stop = segmentStop layout file ph := by
  rw [phdrReads, stop_andThen, stop_reads, Option.none_or]
  by_cases loadable : ph.pType = ptLoad
  · rw [if_pos loadable, stop_andThen, stop_readWords, Option.none_or]
    by_cases occupied : ph.pMemsz ≠ 0
    · rw [if_pos occupied, stop_andThen, stop_zeroBytesReads, Option.or_none, stop_contentReads]
      by_cases content : ph.pFilesz ≠ 0
      · have loads : ph.Loads := ⟨loadable, occupied, content⟩
        rw [if_pos content, segmentStop, if_pos loads]
      · rw [if_neg content, segmentStop, if_neg fun loads => content loads.2.2]
    · rw [if_neg occupied, segmentStop, if_neg fun loads => occupied loads.2.1, stop_done]
  · rw [if_neg loadable, segmentStop, if_neg fun loads => loadable loads.1, stop_done]

variable {layout file ph}

theorem segmentStop_eq_none (inside : SegmentChecked layout file ph → SegmentFits file ph) :
    segmentStop layout file ph = none ↔ SegmentChecked layout file ph := by
  unfold segmentStop
  split
  · rename_i loads
    split
    · rename_i checked
      rw [if_pos (inside (fun _ => checked) loads).2]
      exact iff_of_true rfl fun _ => checked
    · rename_i fails
      simp [SegmentChecked, loads, fails]
  · rename_i skips
    simp [SegmentChecked, skips]

end Stops

theorem inside_andThen {file : File} {first second : Reads} :
    Inside file (first.andThen second) ↔
      Inside file first ∧ (first.stop = none → Inside file second) := holds_andThen

theorem inside_then {file : File} {first second : Reads} (inside : Inside file first)
    (goes : first.stop = none) : Inside file (first.andThen second) ↔ Inside file second :=
  inside_andThen.trans
    ⟨fun both => both.2 goes, fun after => ⟨inside, fun _ => after⟩⟩

@[simp] theorem inside_done {file : File} : Inside file done := holds_done

@[simp] theorem inside_stopWith {file : File} {reason : Stop} :
    Inside file (stopWith reason) ↔ reason ≠ .undefined := holds_stopWith

theorem inside_reads {file : File} {spans : List (Nat × Nat)} :
    Inside file (reads spans) ↔
      ∀ span ∈ spans, ∀ i < span.2, (span.1 + i) % 2 ^ 64 < file.size := by
  constructor
  · intro inside span listed i below
    refine inside.events _ (List.mem_flatMap.mpr ⟨span, listed, ?_⟩)
    exact List.mem_map.mpr ⟨i, List.mem_range.mpr below, rfl⟩
  · refine fun inside => ⟨fun offset read => ?_, fun reason stops => by cases stops⟩
    obtain ⟨span, listed, read⟩ := List.mem_flatMap.mp read
    obtain ⟨i, below, rfl⟩ := List.mem_map.mp read
    exact inside span listed i (List.mem_range.mp below)

theorem inside_each {file : File} {count : Nat} {body : Nat → Reads} {passes : Nat → Prop}
    (checked : ∀ i < count, Inside file (body i) → ((body i).stop = none ↔ passes i)) :
    (Inside file (each count body) ↔
      ∀ i < count, (∀ j < i, passes j) → Inside file (body i)) ∧
    (Inside file (each count body) →
      ((each count body).stop = none ↔ ∀ i < count, passes i)) := holds_each checked

section Mapped

variable {layout : Layout} {file : MappedFile}

theorem inside_span {offset bytes : Nat} (positive : 0 < bytes) :
    Inside file.toFile (reads [(offset, bytes)]) ↔ offset % 2 ^ 64 + bytes ≤ file.size := by
  have signed := file.signed
  rw [inside_reads, List.forall_mem_singleton]
  constructor
  · intro inside
    have start : offset % 2 ^ 64 < file.size := inside 0 positive
    by_contra beyond
    have last := inside (file.size - offset % 2 ^ 64) (by dsimp only; omega)
    dsimp only at last
    omega
  · intro fits i below
    dsimp only at below ⊢
    omega

theorem inside_of_le {spans : List (Nat × Nat)}
    (fits : ∀ span ∈ spans, span.1 + span.2 ≤ file.size) :
    Inside file.toFile (reads spans) := by
  have signed := file.signed
  refine inside_reads.mpr fun span listed i below => ?_
  have fits := fits span listed
  omega

theorem readWords_inside {header size : Nat} {fields : List Nat}
    (placed : ∀ field ∈ fields, field + layout.word ≤ size) (fits : header + size ≤ file.size) :
    Inside file.toFile (readWords layout header fields) := by
  refine inside_of_le fun span listed => ?_
  obtain ⟨field, among, rfl⟩ := List.mem_map.mp listed
  have placed := placed field among
  dsimp only
  omega

section Segments

variable {header : Nat} {ph : Phdr}

theorem writeReads_inside {offset len : Nat} (word : offset < 2 ^ 64) (positive : 0 < len) :
    Inside file.toFile (writeReads offset len) ↔ offset + len ≤ file.size ∧ len < 2 ^ 31 := by
  have start : offset % 2 ^ 64 = offset := Nat.mod_eq_of_lt word
  have some_ : 0 < min len (2 ^ 31) := by omega
  rw [writeReads, inside_andThen, inside_span some_, start]
  split
  · rename_i small
    rw [Nat.min_eq_left (Nat.le_of_lt small)]
    exact ⟨fun both => ⟨both.1, small⟩, fun both => ⟨both.1, fun _ => inside_done⟩⟩
  · rename_i large
    exact ⟨fun both => (inside_stopWith.mp (both.2 rfl) rfl).elim, fun both => (large both.2).elim⟩

theorem phdr_words (placed : layout.WellPlaced) (fits : header + layout.sizeofPhdr ≤ file.size)
    {fields : List Nat}
    (within : fields ⊆ [0, layout.pOffset, layout.pPaddr, layout.pFilesz, layout.pMemsz]) :
    Inside file.toFile (readWords layout header fields) :=
  readWords_inside (fun field listed => placed.phdr field (within listed)) fits

theorem contentReads_inside (placed : layout.WellPlaced) (word : ph.pOffset < 2 ^ 64)
    (fits : header + layout.sizeofPhdr ≤ file.size) :
    Inside file.toFile (contentReads layout file.toFile header ph) ↔
      (ph.pFilesz ≠ 0 → (ph.pOffset + ph.pFilesz) % 2 ^ (8 * layout.word) ≤ file.size →
        ph.pOffset + ph.pFilesz ≤ file.size ∧ ph.pFilesz < 2 ^ 31) := by
  unfold contentReads
  rw [inside_then (phdr_words placed fits (by simp)) rfl]
  split
  · rename_i content
    rw [inside_then (phdr_words placed fits (by simp)) rfl]
    split
    · rename_i checked
      rw [inside_then (phdr_words placed fits (by simp)) rfl, writeReads_inside word (by omega)]
      simp [content, checked]
    · rename_i checked
      simp [content, checked]
  · rename_i content
    simp [content]

theorem zeroBytesReads_inside (placed : layout.WellPlaced)
    (fits : header + layout.sizeofPhdr ≤ file.size) :
    Inside file.toFile (zeroBytesReads layout header ph) := by
  refine (inside_then (phdr_words placed fits (by simp)) rfl).mpr ?_
  split
  · exact phdr_words placed fits (by simp)
  · exact inside_done

theorem phdrReads_inside (placed : layout.WellPlaced) (word : ph.pOffset < 2 ^ 64)
    (fits : header + layout.sizeofPhdr ≤ file.size) :
    Inside file.toFile (phdrReads layout file.toFile header ph) ↔
      (SegmentChecked layout file.toFile ph → SegmentFits file.toFile ph) := by
  have type : Inside file.toFile (reads [(header, 4)]) := by
    refine inside_of_le (List.forall_mem_singleton.mpr ?_)
    have first := placed.phdr 0 (by simp)
    have word := placed.word.1
    dsimp only
    omega
  simp only [phdrReads, SegmentChecked, SegmentFits, Phdr.Loads]
  rw [inside_then type rfl]
  split
  · rename_i loadable
    rw [inside_then (phdr_words placed fits (by simp)) rfl]
    split
    · rename_i occupied
      rw [inside_andThen, contentReads_inside placed word fits]
      simp only [loadable, occupied, zeroBytesReads_inside placed fits, implies_true, and_true,
        true_and, ne_eq, not_false_eq_true]
      exact ⟨fun inside checked content => inside content (checked content),
        fun inside content checked => inside (fun _ => checked) content⟩
    · rename_i occupied
      simp only [inside_done, loadable, occupied, false_and, and_false, false_implies,
        implies_true]
  · rename_i loadable
    simp only [inside_done, loadable, false_and, false_implies, implies_true]

end Segments

section Names

theorem strcmpReads_inside {text : List (BitVec 8)} {offset : Nat} (start : offset < 2 ^ 64)
    (nonempty : text ≠ []) :
    Inside file.toFile (strcmpReads file.toFile offset text) ↔
      Decided file.toFile offset text := by
  have signed := file.signed
  induction text generalizing offset with
  | nil => exact (nonempty rfl).elim
  | cons c text ih =>
      have here : offset % 2 ^ 64 = offset := Nat.mod_eq_of_lt start
      rw [strcmpReads, inside_andThen, inside_span Nat.one_pos, here]
      constructor
      · rintro ⟨first, rest⟩
        have rest := rest rfl
        split at rest
        · rename_i same
          by_cases last : text = []
          · exact .inl (by rw [last]; exact first)
          · rcases (ih (by omega) last).mp rest with fills | ⟨k, below, inside, differs⟩
            · exact .inl (by rw [List.length_cons]; omega)
            · exact .inr ⟨k + 1, Nat.succ_lt_succ below, by omega, by
                rwa [List.getElem_cons_succ, Nat.add_comm k 1, ← Nat.add_assoc]⟩
        · rename_i differs
          exact .inr ⟨0, Nat.succ_pos _, by omega, differs⟩
      · intro decided
        have first : offset + 1 ≤ file.size := by
          rcases decided with fills | ⟨k, _, inside, _⟩
          · rw [List.length_cons] at fills
            omega
          · omega
        refine ⟨first, fun _ => ?_⟩
        split
        · rename_i same
          by_cases last : text = []
          · rw [last]
            exact inside_done
          · refine (ih (by omega) last).mpr ?_
            rcases decided with fills | ⟨k, below, inside, differs⟩
            · rw [List.length_cons] at fills
              exact .inl (by omega)
            · cases k with
              | zero => exact (differs same).elim
              | succ k => exact .inr ⟨k, Nat.lt_of_succ_lt_succ below, by omega, by
                  rwa [List.getElem_cons_succ, Nat.add_comm k 1, ← Nat.add_assoc] at differs⟩
        · exact inside_done

@[simp] theorem stop_strcmpReads (file : File) (text : List (BitVec 8)) :
    ∀ offset, (strcmpReads file offset text).stop = none := by
  induction text with
  | nil => exact fun offset => rfl
  | cons c text ih =>
      intro offset
      rw [strcmpReads, stop_andThen, stop_reads, Option.none_or]
      split
      · exact ih (offset + 1)
      · rfl

theorem strcmpEqual_get {file : File} {text : List (BitVec 8)} {offset k : Nat}
    (equal : strcmpEqual file offset text) (below : k < text.length) :
    file.buf ((offset + k) % 2 ^ 64) = text[k] := by
  induction text generalizing offset k with
  | nil => exact (Nat.not_lt_zero k below).elim
  | cons c text ih =>
      rw [strcmpEqual, Bool.and_eq_true, beq_iff_eq] at equal
      cases k with
      | zero => exact equal.1
      | succ k =>
          rw [List.getElem_cons_succ, ← ih equal.2 (Nat.lt_of_succ_lt_succ below),
            Nat.add_right_comm, Nat.add_assoc]

theorem fills_of_equal {text : List (BitVec 8)} {offset : Nat}
    (decided : Decided file.toFile offset text) (equal : strcmpEqual file.toFile offset text) :
    offset + text.length ≤ file.size := by
  have signed := file.signed
  refine decided.resolve_right ?_
  rintro ⟨k, below, inside, differs⟩
  have same := strcmpEqual_get equal below
  rw [Nat.mod_eq_of_lt (by omega)] at same
  exact differs same

theorem stop_nameReads (file : File) (i : Nat) : (nameReads layout file i).stop = none := by
  simp only [nameReads, stop_andThen, stop_readHalf, stop_readWords, stop_reads,
    stop_strcmpReads, Option.none_or]
  split
  · rfl
  · simp only [stop_andThen, stop_reads, stop_strcmpReads, Option.none_or]
    split <;> rfl

variable (placed : layout.WellPlaced) (room : 64 ≤ file.size)
include placed room

theorem readHalf_inside {field : Nat}
    (among : field ∈ [layout.ePhnum, layout.eShnum, layout.eShstrndx]) :
    Inside file.toFile (readHalf field) := by
  have placed := placed.halves field among
  exact inside_of_le (List.forall_mem_singleton.mpr (by dsimp only; omega))

theorem nameReads_header {i : Nat}
    (inside : Inside file.toFile (nameReads layout file.toFile i)) :
    shdr layout file.toFile i % 2 ^ 64 + 4 ≤ file.size := by
  rw [nameReads, inside_then (readHalf_inside placed room (by simp)) rfl, inside_andThen] at inside
  have header := inside_reads.mp (inside_andThen.mp (inside.2 rfl)).1
  exact (inside_span (by decide)).mp (inside_reads.mpr fun span listed =>
    header span (List.mem_cons_of_mem _ listed))

theorem nameReads_inside {i : Nat}
    (table : ∀ field ∈ [layout.shOffset, layout.shSize],
      (shstr layout file.toFile + field) % 2 ^ 64 + layout.word ≤ file.size)
    (fits : shdr layout file.toFile i + layout.sizeofShdr ≤ file.size) :
    Inside file.toFile (nameReads layout file.toFile i) ↔
      ∀ text ∈ [strtab, symtab], Decided file.toFile (nameAt layout file.toFile i) text := by
  have word := placed.word
  have name := placed.shdr 0 (by simp)
  have start : nameAt layout file.toFile i < 2 ^ 64 := Nat.mod_lt _ (by decide)
  have size : Inside file.toFile (readWords layout (shstr layout file.toFile) [layout.shSize]) :=
    (inside_span (by omega)).mpr (table _ (by simp))
  have shOffset : Inside file.toFile
      (readWords layout (shdr layout file.toFile i) [layout.shOffset]) :=
    readWords_inside (fun field listed => placed.shdr field
      (List.mem_cons_of_mem _ (List.mem_cons.mpr (.inl (List.mem_singleton.mp listed))))) fits
  rw [List.forall_mem_cons, List.forall_mem_singleton, nameReads,
    inside_then (readHalf_inside placed room (by simp)) rfl, inside_then size rfl,
    inside_then (inside_of_le (by simp; omega)) rfl, inside_andThen,
    strcmpReads_inside start (show strtab ≠ [] from List.cons_ne_nil _ _)]
  refine and_congr_right fun decided => ?_
  rw [stop_strcmpReads, imp_iff_right rfl]
  split
  · rename_i equal
    have fills := fills_of_equal decided equal
    exact iff_of_true shOffset (.inl fills)
  · rw [inside_then (inside_of_le (by simp; omega)) rfl, inside_andThen,
      strcmpReads_inside start (show symtab ≠ [] from List.cons_ne_nil _ _)]
    refine and_iff_left_of_imp fun _ _ => ?_
    split
    · exact shOffset
    · exact inside_done

end Names

section Load

theorem unwrapped_of_inside {start count stride size : Nat} (word : start < 2 ^ 64)
    (half : count < 2 ^ 16) (small : stride ≤ 64) (signed : size < 2 ^ 63)
    (inside : start + 4 ≤ size) (checked : (start + count * stride) % 2 ^ 64 ≤ size) :
    start + count * stride ≤ size := by
  have all : count * stride ≤ 2 ^ 16 * 64 := Nat.mul_le_mul (Nat.le_of_lt half) small
  omega

theorem word_lt (placed : layout.WellPlaced) (file : File) (offset : Nat) :
    file.read offset layout.word < 2 ^ 64 :=
  Nat.lt_of_lt_of_le (file.read_lt _ _)
    (Nat.pow_le_pow_right (by decide) (by have word := placed.word.2; omega))

theorem header_fits {start count stride size i : Nat} (fits : start + count * stride ≤ size)
    (below : i < count) : start + i * stride + stride ≤ size := by
  have within : (i + 1) * stride ≤ count * stride := Nat.mul_le_mul_right _ below
  rw [Nat.succ_mul] at within
  omega

variable (placed : layout.WellPlaced) (room : 64 ≤ file.size)
include placed room

theorem names_inside
    (table : ∀ field ∈ [layout.shOffset, layout.shSize],
      (shstr layout file.toFile + field) % 2 ^ 64 + layout.word ≤ file.size)
    (checked : SectionHeadersChecked layout file.toFile) :
    Inside file.toFile (each (shnum layout file.toFile) fun i =>
      (readHalf layout.eShnum).andThen (nameReads layout file.toFile i)) ↔
      NamesFit layout file.toFile := by
  have half : Inside file.toFile (readHalf layout.eShnum) :=
    readHalf_inside placed room (by simp)
  have goes : ∀ i, ((readHalf layout.eShnum).andThen
      (nameReads layout file.toFile i)).stop = none := fun i => by
    rw [stop_andThen, stop_readHalf, stop_nameReads, Option.or_none]
  rw [(inside_each fun i _ _ => iff_of_true (goes i) trivial).1]
  simp only [implies_true, forall_const]
  constructor
  · intro inside
    have first := inside 0 (Nat.lt_of_le_of_lt (Nat.zero_le _) checked.2)
    have start := nameReads_header placed room ((inside_then half rfl).mp first)
    simp only [shdr, Nat.zero_mul, Nat.add_zero] at start
    rw [shoff, Nat.mod_eq_of_lt (word_lt placed _ _)] at start
    have fits := unwrapped_of_inside (word_lt placed _ _) (File.read_lt _ 2 _) placed.sizes.2
      file.signed start checked.1
    refine ⟨fits, fun i below => ?_⟩
    exact (nameReads_inside placed room table (header_fits fits below)).mp
      ((inside_then half rfl).mp (inside i below))
  · intro holds i below
    refine (inside_then half rfl).mpr ?_
    exact (nameReads_inside placed room table (header_fits holds.sectionHeaders below)).mpr
      (holds.names i below)

theorem nameTableReads_inside (checked : SectionHeadersChecked layout file.toFile) :
    Inside file.toFile (nameTableReads layout file.toFile) ↔ SectionsFit layout file.toFile := by
  have word := placed.word.1
  have shstrndx : Inside file.toFile (readHalf layout.eShstrndx) :=
    readHalf_inside placed room (by simp)
  have shnum : Inside file.toFile (readHalf layout.eShnum) :=
    readHalf_inside placed room (by simp)
  have field : ∀ field, Inside file.toFile (readWords layout (shstr layout file.toFile) [field]) ↔
      (shstr layout file.toFile + field) % 2 ^ 64 + layout.word ≤ file.size :=
    fun field => inside_span (by omega)
  have fields : Inside file.toFile ((readHalf layout.eShstrndx).andThen <|
      (readWords layout (shstr layout file.toFile) [layout.shOffset]).andThen <|
      (readHalf layout.eShstrndx).andThen <|
      readWords layout (shstr layout file.toFile) [layout.shSize]) ↔
      ∀ field ∈ [layout.shOffset, layout.shSize],
        (shstr layout file.toFile + field) % 2 ^ 64 + layout.word ≤ file.size := by
    rw [inside_then shstrndx rfl, inside_andThen, inside_then shstrndx rfl, field, field,
      List.forall_mem_cons, List.forall_mem_singleton, stop_readWords, imp_iff_right rfl]
  rw [nameTableReads, inside_andThen, fields]
  constructor
  · rintro ⟨table, rest⟩
    refine ⟨table, fun passed => ?_⟩
    have rest := rest rfl
    rw [if_neg (Nat.not_lt.mpr passed), inside_then shstrndx rfl,
      inside_then ((field _).mpr (table _ (by simp))) rfl, inside_andThen,
      names_inside placed room table checked] at rest
    exact rest.1
  · intro holds
    refine ⟨holds.nameTable, fun _ => ?_⟩
    split
    · exact (inside_then (fields.mpr holds.nameTable) rfl).mpr (inside_stopWith.mpr (by decide))
    · rename_i passed
      rw [inside_then shstrndx rfl,
        inside_then ((field _).mpr (holds.nameTable _ (by simp))) rfl, inside_andThen,
        names_inside placed room holds.nameTable checked]
      exact ⟨holds.names (Nat.not_lt.mp passed), fun _ => shnum⟩

theorem sectionReads_inside : Inside file.toFile (sectionReads layout file.toFile) ↔
    (SectionHeadersChecked layout file.toFile → SectionsFit layout file.toFile) := by
  have half : ∀ {field}, field ∈ [layout.ePhnum, layout.eShnum, layout.eShstrndx] →
      Inside file.toFile (readHalf field) := fun among => readHalf_inside placed room among
  have shoff : Inside file.toFile (readWords layout 0 [layout.eShoff]) :=
    readWords_inside (fun field listed => placed.ehdr field (by simp_all)) (by omega)
  have sizes : Inside file.toFile
      ((readWords layout 0 [layout.eShoff]).andThen (readHalf layout.eShnum)) :=
    (inside_then shoff rfl).mpr (half (by simp))
  have indices : Inside file.toFile
      ((readHalf layout.eShstrndx).andThen (readHalf layout.eShnum)) :=
    (inside_then (half (by simp)) rfl).mpr (half (by simp))
  have errorReturn : Inside file.toFile (stopWith .errorReturn) := inside_stopWith.mpr (by decide)
  rw [sectionReads, inside_then sizes rfl]
  split
  · rename_i short
    exact iff_of_true ((inside_then sizes rfl).mpr errorReturn)
      fun checked => (Nat.not_lt.mpr checked.1 short).elim
  · rename_i long
    rw [inside_then indices rfl]
    split
    · rename_i out
      exact iff_of_true ((inside_then indices rfl).mpr errorReturn)
        fun checked => (Nat.not_lt.mpr out checked.2).elim
    · rename_i within
      have checked : SectionHeadersChecked layout file.toFile :=
        ⟨Nat.not_lt.mp long, Nat.not_le.mp within⟩
      rw [nameTableReads_inside placed room checked, imp_iff_right checked]

theorem segmentRound_inside {i : Nat}
    (fits : phoff layout file.toFile + i * layout.sizeofPhdr + layout.sizeofPhdr ≤ file.size) :
    (Inside file.toFile ((readHalf layout.ePhnum).andThen (segmentReads layout file.toFile i)) ↔
      (SegmentChecked layout file.toFile (phdr layout file.toFile i) →
        SegmentFits file.toFile (phdr layout file.toFile i))) ∧
    (Inside file.toFile ((readHalf layout.ePhnum).andThen (segmentReads layout file.toFile i)) →
      (((readHalf layout.ePhnum).andThen (segmentReads layout file.toFile i)).stop = none ↔
        SegmentChecked layout file.toFile (phdr layout file.toFile i))) := by
  have half : Inside file.toFile (readHalf layout.ePhnum) :=
    readHalf_inside placed room (by simp)
  have word : (phdr layout file.toFile i).pOffset < 2 ^ 64 := word_lt placed _ _
  rw [inside_then half rfl, segmentReads, phdrReads_inside placed word fits, stop_andThen,
    stop_readHalf, Option.none_or, stop_phdrReads]
  exact ⟨Iff.rfl, segmentStop_eq_none⟩

theorem programHeaders_fit (checked : ProgramHeadersChecked layout file.toFile)
    (inside : Inside file.toFile (each (phnum layout file.toFile) fun i =>
      (readHalf layout.ePhnum).andThen (segmentReads layout file.toFile i))) :
    phoff layout file.toFile + phnum layout file.toFile * layout.sizeofPhdr ≤ file.size := by
  have word : phoff layout file.toFile < 2 ^ 64 := word_lt placed _ _
  rcases Nat.eq_zero_or_pos (phnum layout file.toFile) with none | some
  · rw [ProgramHeadersChecked, none, Nat.zero_mul, Nat.add_zero, Nat.mod_eq_of_lt word] at checked
    rwa [none, Nat.zero_mul]
  · have half : Inside file.toFile (readHalf layout.ePhnum) :=
      readHalf_inside placed room (by simp)
    have first := (inside_then half rfl).mp (holds_first some inside)
    have start := (inside_span (by decide)).mp (inside_andThen.mp first).1
    simp only [Nat.zero_mul, Nat.add_zero, Nat.mod_eq_of_lt word] at start
    exact unwrapped_of_inside word (File.read_lt _ 2 _) placed.sizes.1 file.signed start checked

theorem loadReads_inside : Inside file.toFile (loadReads layout file.toFile) ↔
    (ProgramHeadersChecked layout file.toFile → SumsFit layout file.toFile) := by
  have half : Inside file.toFile (readHalf layout.ePhnum) :=
    readHalf_inside placed room (by simp)
  have words : ∀ {fields}, fields ⊆ [layout.ePhoff, layout.eShoff, layout.eEntry] →
      Inside file.toFile (readWords layout 0 fields) := fun within =>
    readWords_inside (fun field listed => placed.ehdr field (within listed)) (by omega)
  have sizes : Inside file.toFile
      ((readWords layout 0 [layout.ePhoff]).andThen (readHalf layout.ePhnum)) :=
    (inside_then (words (by simp)) rfl).mpr half
  rw [loadReads, inside_then (words (by simp)) rfl, inside_then sizes rfl]
  split
  · rename_i short
    exact iff_of_true ((inside_then sizes rfl).mpr (inside_stopWith.mpr (by decide)))
      fun checked => (Nat.not_lt.mpr checked short).elim
  · rename_i long
    have checked : ProgramHeadersChecked layout file.toFile := Nat.not_lt.mp long
    rw [inside_then (words (by simp)) rfl, inside_andThen, inside_then half rfl,
      sectionReads_inside placed room, imp_iff_right checked]
    constructor
    · rintro ⟨segments, sections⟩
      have fits := programHeaders_fit placed room checked segments
      have round := fun i (below : i < phnum layout file.toFile) =>
        segmentRound_inside placed room (header_fits fits below)
      obtain ⟨rounds, stops⟩ := inside_each fun i below => (round i below).2
      refine ⟨fits, fun i below passed => ?_, fun passed => sections ((stops segments).mpr passed)⟩
      exact (round i below).1.mp
        (rounds.mp segments i below fun j before => passed j (Nat.le_of_lt before))
        (passed i (Nat.le_refl i))
    · intro holds
      have round := fun i (below : i < phnum layout file.toFile) =>
        segmentRound_inside placed room (header_fits holds.programHeaders below)
      obtain ⟨rounds, stops⟩ := inside_each fun i below => (round i below).2
      have segments := rounds.mpr fun i below passed => (round i below).1.mpr fun last =>
        holds.segments i below fun j upto => (Nat.lt_or_eq_of_le upto).elim (passed j)
          fun same => same ▸ last
      exact ⟨segments, fun goes => holds.sections ((stops segments).mp goes)⟩

end Load

end Mapped

section Outcome

variable (layout : Layout) (file : File)

def outcome : Option (Loader × Bool) → Option Stop
  | none => some .assertion
  | some (_, false) => some .errorReturn
  | some (_, true) => none

theorem segmentReads_outcome (i : Nat) (loader : Loader) :
    (segmentReads layout file i).stop = some .undefined ∨
      (segmentReads layout file i).stop =
        outcome ((loadSegment layout file (phdr layout file i) loader).map (·, true)) := by
  rw [segmentReads, stop_phdrReads, segmentStop]
  by_cases loads : (phdr layout file i).Loads
  · have loadable : (phdr layout file i).pType = ptLoad ∧ (phdr layout file i).pMemsz ≠ 0 :=
      ⟨loads.1, loads.2.1⟩
    rw [if_pos loads, loadSegment, if_pos loadable, if_pos loads.2.2]
    split
    · split
      · exact .inr rfl
      · exact .inl rfl
    · exact .inr rfl
  · rw [if_neg loads, loadSegment]
    refine .inr ?_
    split
    · rename_i loadable
      rw [if_neg fun content => loads ⟨loadable.1, loadable.2, content⟩]
      rfl
    · rfl

theorem loadSegments_append (before after : List Phdr) (loader : Loader) :
    loadSegments layout file (before ++ after) loader =
      (loadSegments layout file before loader).bind (loadSegments layout file after) := by
  induction before generalizing loader with
  | nil => rfl
  | cons ph before ih =>
      rw [List.cons_append, loadSegments, loadSegments, Option.bind_assoc]
      exact congrArg _ (funext ih)

theorem segmentsReads_outcome (count : Nat) (loader : Loader) :
    (each count fun i =>
      (readHalf layout.ePhnum).andThen (segmentReads layout file i)).stop = some .undefined ∨
    (each count fun i => (readHalf layout.ePhnum).andThen (segmentReads layout file i)).stop =
      outcome ((loadSegments layout file ((List.range count).map (phdr layout file)) loader).map
        (·, true)) := by
  induction count with
  | zero => exact .inr rfl
  | succ count ih =>
      rw [each, stop_andThen, List.range_succ, List.map_append, loadSegments_append]
      rcases ih with undefined | same
      · exact .inl (by rw [undefined, Option.some_or])
      · rw [same, stop_andThen, stop_readHalf, Option.none_or]
        cases loadSegments layout file ((List.range count).map (phdr layout file)) loader with
        | none => exact .inr rfl
        | some middle =>
            have last := segmentReads_outcome layout file count middle
            simpa [loadSegments, outcome] using last

/-- Unless the copying loop overflows, the reads end where `loadElf` ends. -/
theorem loadReads_outcome (loader : Loader) :
    (loadReads layout file).stop = some .undefined ∨
      (loadReads layout file).stop = outcome (loadElf layout file loader) := by
  have names : (each (shnum layout file) fun i =>
      (readHalf layout.eShnum).andThen (nameReads layout file i)).stop = none := by
    refine stop_each.mpr fun i _ => ?_
    rw [stop_andThen, stop_readHalf, stop_nameReads, Option.or_none]
  have segments := segmentsReads_outcome layout file (phnum layout file)
    { loader with entry := entryOf layout file }
  simp only [loadReads, loadElf, stop_andThen, stop_readWords, stop_readHalf, Option.none_or]
  split
  · exact .inr rfl
  · simp only [stop_andThen, stop_readWords, stop_readHalf, Option.none_or]
    rcases segments with undefined | same
    · exact .inl (by rw [undefined, Option.some_or])
    · rw [same, ← phdrs]
      cases loadSegments layout file (phdrs layout file)
          { loader with entry := entryOf layout file } with
      | none => exact .inr rfl
      | some after =>
          refine .inr ?_
          simp only [Option.map_some, outcome, Option.none_or, sectionReads, nameTableReads,
            stop_andThen, stop_readWords, stop_readHalf]
          split
          · rfl
          · split
            · rfl
            · simp only [stop_andThen, stop_readWords, stop_readHalf, Option.none_or]
              split
              · rename_i beyond
                simp only [nameTableOffset, nameTableSize, shstr] at beyond
                rw [if_pos beyond]
                rfl
              · rename_i fits
                simp only [nameTableOffset, nameTableSize, shstr] at fits
                rw [if_neg fits]
                simp only [stop_andThen, stop_readHalf, stop_readWords, names, Option.none_or]

end Outcome

/-- The loader stays inside a mapped file exactly when the sums behind its checks do not wrap and
the names that it compares end in time. -/
theorem loadElf_inside_iff {file : MappedFile} {layout : Layout}
    (accepted : layoutOf file.toFile = some layout) :
    Inside file.toFile (loadReads layout file.toFile) ↔
      (ProgramHeadersChecked layout file.toFile → SumsFit layout file.toFile) := by
  obtain ⟨placed, room⟩ := layoutOf_wellPlaced accepted
  exact loadReads_inside placed room

def bytesAt (listed : List (Nat × Nat)) (offset : Nat) : BitVec 8 :=
  ((listed.find? fun entry => entry.1 = offset).map fun entry => BitVec.ofNat 8 entry.2).getD 0

def elfMagic : List (Nat × Nat) := [(0, 0x7f), (1, 0x45), (2, 0x4c), (3, 0x46)]

/-- One segment of four bytes at 52 and the name table at 124, which holds `.strtab`. -/
def smallElf : MappedFile where
  size := 132
  buf := bytesAt (elfMagic ++ [(4, 1), (28, 52), (32, 84), (44, 1), (48, 1), (52, 1), (56, 52),
    (68, 4), (72, 4), (100, 124), (104, 8), (124, 0x2e), (125, 0x73), (126, 0x74), (127, 0x72),
    (128, 0x74), (129, 0x61), (130, 0x62)])
  signed := by decide

theorem smallElf_inside : Inside smallElf.toFile (loadReads elf32 smallElf.toFile) := by
  refine (loadElf_inside_iff rfl).mpr fun _ => ⟨by decide +kernel, ?_, ?_⟩
  · intro i below _
    obtain rfl : i = 0 := Nat.lt_one_iff.mp below
    exact fun _ => by decide +kernel
  · refine fun _ _ => ⟨by decide +kernel, fun _ => ⟨by decide +kernel, fun i below => ?_⟩⟩
    obtain rfl : i = 0 := Nat.lt_one_iff.mp below
    rw [List.forall_mem_cons, List.forall_mem_singleton]
    exact ⟨.inl (by decide +kernel), .inl (by decide +kernel)⟩

/-- The sum of `p_offset` and `p_filesz` wraps around to 16. -/
def wrappingElf : MappedFile where
  size := 84
  buf := bytesAt (elfMagic ++ [(4, 1), (28, 52), (44, 1), (52, 1), (56, 0xf0), (57, 0xff),
    (58, 0xff), (59, 0xff), (68, 0x20), (72, 0x20)])
  signed := by decide

theorem wrappingElf_outside : layoutOf wrappingElf.toFile = some elf32 ∧
    ¬Inside wrappingElf.toFile (loadReads elf32 wrappingElf.toFile) := by
  refine ⟨rfl, fun inside => ?_⟩
  have read : 0xfffffff0 ∈ (loadReads elf32 wrappingElf.toFile).events := by decide +kernel
  exact absurd (inside.events _ read) (by decide)

end Atalanta.ElfLoader
