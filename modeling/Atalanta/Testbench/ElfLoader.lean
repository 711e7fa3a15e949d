import Mathlib.Algebra.Ring.Nat

/-! The ELF loader of the testbench, `elfloader.cpp`: the segment list and the address-keyed map
that `read_elf` fills from a file. -/

namespace Atalanta.ElfLoader

structure File where
  size : Nat
  buf : Nat → BitVec 8

def File.read (file : File) (offset : Nat) : Nat → Nat
  | 0 => 0
  | bytes + 1 => (file.buf offset).toNat + 256 * file.read (offset + 1) bytes

/-- The offsets of the fields in the structures of an ELF class, whose words have `word` bytes. -/
structure Layout where
  word : Nat
  eEntry : Nat
  ePhoff : Nat
  eShoff : Nat
  ePhnum : Nat
  eShnum : Nat
  eShstrndx : Nat
  sizeofPhdr : Nat
  pOffset : Nat
  pPaddr : Nat
  pFilesz : Nat
  pMemsz : Nat
  sizeofShdr : Nat
  shOffset : Nat
  shSize : Nat

def elf32 : Layout where
  word := 4
  eEntry := 24
  ePhoff := 28
  eShoff := 32
  ePhnum := 44
  eShnum := 48
  eShstrndx := 50
  sizeofPhdr := 32
  pOffset := 4
  pPaddr := 12
  pFilesz := 16
  pMemsz := 20
  sizeofShdr := 40
  shOffset := 16
  shSize := 20

def elf64 : Layout where
  word := 8
  eEntry := 24
  ePhoff := 32
  eShoff := 40
  ePhnum := 56
  eShnum := 60
  eShstrndx := 62
  sizeofPhdr := 56
  pOffset := 8
  pPaddr := 24
  pFilesz := 32
  pMemsz := 40
  sizeofShdr := 64
  shOffset := 24
  shSize := 32

structure Phdr where
  pType : Nat
  pOffset : Nat
  pPaddr : Nat
  pFilesz : Nat
  pMemsz : Nat
deriving DecidableEq, Repr

def Phdr.Contains (ph : Phdr) (address : Nat) : Prop :=
  ph.pPaddr ≤ address ∧ address < ph.pPaddr + ph.pMemsz

def Phdr.Apart (left right : Phdr) : Prop :=
  left.pPaddr + left.pMemsz ≤ right.pPaddr ∨ right.pPaddr + right.pMemsz ≤ left.pPaddr

-- the word that the loader writes too many is then the first one of the other segment
def Phdr.Overruns (ph next : Phdr) : Prop :=
  ph.pMemsz % 4 = 0 ∧ ph.pPaddr + ph.pMemsz = next.pPaddr

instance : Std.Symm Phdr.Apart := ⟨fun _ _ apart => apart.symm⟩

section Headers

variable (layout : Layout) (file : File)

def entryOf : Nat := file.read layout.eEntry layout.word
def phoff : Nat := file.read layout.ePhoff layout.word
def shoff : Nat := file.read layout.eShoff layout.word
def phnum : Nat := file.read layout.ePhnum 2
def shnum : Nat := file.read layout.eShnum 2
def shstrndx : Nat := file.read layout.eShstrndx 2

def phdr (i : Nat) : Phdr :=
  let ph := phoff layout file + i * layout.sizeofPhdr
  { pType := file.read ph 4
    pOffset := file.read (ph + layout.pOffset) layout.word
    pPaddr := file.read (ph + layout.pPaddr) layout.word
    pFilesz := file.read (ph + layout.pFilesz) layout.word
    pMemsz := file.read (ph + layout.pMemsz) layout.word }

def phdrs : List Phdr := (List.range (phnum layout file)).map (phdr layout file)

def shdr (i : Nat) : Nat := shoff layout file + i * layout.sizeofShdr

end Headers

structure Loader where
  sections : List (Nat × Nat)
  mems : Nat → Option (List (BitVec 8))
  entry : Nat
  sectionIndex : Nat

def Loader.initial : Loader := ⟨[], fun _ => none, 0, 0⟩

-- `insert` keeps what the map already has at the address
def write (address len : Nat) (buf : Nat → BitVec 8) (loader : Loader) : Loader :=
  { loader with
    mems := fun other =>
      (loader.mems other).or
        (if other = address then some ((List.range len).map buf) else none) }

def ptLoad : Nat := 1

/-- One step of the loop over the program headers; `none` is the failed assertion. -/
def loadSegment (layout : Layout) (file : File) (ph : Phdr) (loader : Loader) : Option Loader :=
  if ph.pType = ptLoad ∧ ph.pMemsz ≠ 0 then
    if ph.pFilesz ≠ 0 then
      if (ph.pOffset + ph.pFilesz) % 2 ^ (8 * layout.word) ≤ file.size then
        some (write ph.pPaddr ph.pFilesz (fun i => file.buf (ph.pOffset + i))
          { loader with sections := loader.sections ++ [(ph.pPaddr, ph.pMemsz)] })
      else none
    else some loader
  else some loader

def loadSegments (layout : Layout) (file : File) : List Phdr → Loader → Option Loader
  | [], loader => some loader
  | ph :: rest, loader => (loadSegment layout file ph loader).bind (loadSegments layout file rest)

/-- The result tells whether every check of the headers was passed. The loop over the section
names after them only prints. -/
def loadElf (layout : Layout) (file : File) (loader : Loader) : Option (Loader × Bool) :=
  if file.size < (phoff layout file + phnum layout file * layout.sizeofPhdr) % 2 ^ 64 then
    some (loader, false)
  else
    let loader := { loader with entry := entryOf layout file }
    (loadSegments layout file (phdrs layout file) loader).map fun loader =>
      let shstr := shdr layout file (shstrndx layout file)
      if file.size < (shoff layout file + shnum layout file * layout.sizeofShdr) % 2 ^ 64 then
        (loader, false)
      else if shnum layout file ≤ shstrndx layout file then (loader, false)
      else if file.size < (file.read (shstr + layout.shOffset) layout.word +
          file.read (shstr + layout.shSize) layout.word) % 2 ^ (8 * layout.word) then
        (loader, false)
      else (loader, true)

def isElf (file : File) : Bool :=
  file.buf 0 == 0x7f && file.buf 1 == 0x45 && file.buf 2 == 0x4c && file.buf 3 == 0x46

def layoutOf (file : File) : Option Layout :=
  if file.size < 64 then none
  else if isElf file && file.buf 4 == 1 then some elf32
  else if isElf file && file.buf 4 == 2 then some elf64
  else none

-- `none` is an error return or the failed assertion
def readElf (file : File) : Option (Loader × Bool) :=
  (layoutOf file).bind fun layout => loadElf layout file .initial

def getSection (loader : Loader) : Option ((Nat × Nat) × Loader) :=
  loader.sections[loader.sectionIndex]?.map fun section_ =>
    (section_, { loader with sectionIndex := loader.sectionIndex + 1 })

def Phdr.Loads (ph : Phdr) : Prop := ph.pType = ptLoad ∧ ph.pMemsz ≠ 0 ∧ ph.pFilesz ≠ 0

instance (ph : Phdr) : Decidable ph.Loads := inferInstanceAs (Decidable (_ ∧ _))

def loaded (segments : List Phdr) : List Phdr := segments.filter fun ph => ph.Loads

def segmentBytes (file : File) (ph : Phdr) : List (BitVec 8) :=
  (List.range ph.pFilesz).map fun i => file.buf (ph.pOffset + i)

def Phdr.toSection (ph : Phdr) : Nat × Nat := (ph.pPaddr, ph.pMemsz)

structure Holds (file : File) (before : Loader) (segments : List Phdr) (after : Loader) : Prop where
  sections : after.sections = before.sections ++ (loaded segments).map Phdr.toSection
  mems : ∀ address, after.mems address =
    (before.mems address).or
      (((loaded segments).find? fun ph => ph.pPaddr = address).map (segmentBytes file))
  sectionIndex : after.sectionIndex = before.sectionIndex

theorem loadSegment_cases {layout : Layout} {file : File} {ph : Phdr} {loader result : Loader}
    (step : loadSegment layout file ph loader = some result) :
    (ph.Loads ∧ result = write ph.pPaddr ph.pFilesz (fun i => file.buf (ph.pOffset + i))
        { loader with sections := loader.sections ++ [ph.toSection] }) ∨
      (¬ph.Loads ∧ result = loader) := by
  unfold loadSegment at step
  split at step
  · rename_i loadable
    split at step
    · rename_i content
      split at step
      · exact .inl ⟨⟨loadable.1, loadable.2, content⟩, (Option.some.inj step).symm⟩
      · cases step
    · rename_i empty
      exact .inr ⟨fun loads => empty loads.2.2, (Option.some.inj step).symm⟩
  · rename_i other
    exact .inr ⟨fun loads => other ⟨loads.1, loads.2.1⟩, (Option.some.inj step).symm⟩

theorem loadSegments_holds {layout : Layout} {file : File} {segments : List Phdr}
    {before after : Loader} (run : loadSegments layout file segments before = some after) :
    Holds file before segments after := by
  induction segments generalizing before with
  | nil =>
      cases run
      exact ⟨by simp [loaded], fun address => by simp [loaded], rfl⟩
  | cons ph segments ih =>
      obtain ⟨middle, step, rest⟩ := Option.bind_eq_some_iff.mp run
      have later := ih rest
      rcases loadSegment_cases step with ⟨loads, rfl⟩ | ⟨skips, rfl⟩
      · have first : loaded (ph :: segments) = ph :: loaded segments :=
          List.filter_cons_of_pos (by simpa using loads)
        refine ⟨?_, fun address => ?_, later.sectionIndex⟩
        · rw [later.sections, first]
          simp [write]
        · rw [later.mems address, first, List.find?_cons, write, Option.or_assoc]
          by_cases here : ph.pPaddr = address
          · simp [here, segmentBytes]
          · simp [here, Ne.symm here]
      · have first : loaded (ph :: segments) = loaded segments :=
          List.filter_cons_of_neg (by simpa using skips)
        exact ⟨first ▸ later.sections, first ▸ later.mems, later.sectionIndex⟩

def segmentsOf (file : File) : List Phdr :=
  match layoutOf file with
  | some layout => loaded (phdrs layout file)
  | none => []

theorem loadElf_accepted {layout : Layout} {file : File} {loader before : Loader}
    (accepted : loadElf layout file before = some (loader, true)) :
    Holds file before (phdrs layout file) loader := by
  unfold loadElf at accepted
  split at accepted
  · cases accepted
  · obtain ⟨result, run, same⟩ := Option.map_eq_some_iff.mp accepted
    obtain rfl : result = loader := by
      dsimp only at same
      split at same
      · cases same
      · split at same
        · cases same
        · split at same
          · cases same
          · exact congrArg Prod.fst same
    have holds := loadSegments_holds run
    exact ⟨holds.sections, holds.mems, holds.sectionIndex⟩

theorem readElf_accepted {file : File} {loader : Loader}
    (accepted : readElf file = some (loader, true)) :
    loader.sections = (segmentsOf file).map Phdr.toSection ∧ loader.sectionIndex = 0 ∧
      ∀ address, loader.mems address =
        ((segmentsOf file).find? fun ph => ph.pPaddr = address).map (segmentBytes file) := by
  obtain ⟨layout, class_, accepted⟩ := Option.bind_eq_some_iff.mp accepted
  have holds := loadElf_accepted accepted
  have segments : segmentsOf file = loaded (phdrs layout file) := by
    simp only [segmentsOf, class_]
  rw [segments]
  exact ⟨holds.sections, holds.sectionIndex, fun address => holds.mems address⟩

theorem find_paddr {segments : List Phdr}
    (distinct : segments.Pairwise fun left right => left.pPaddr ≠ right.pPaddr) {ph : Phdr}
    (inside : ph ∈ segments) :
    segments.find? (fun other => other.pPaddr = ph.pPaddr) = some ph := by
  induction segments with
  | nil => cases inside
  | cons first rest ih =>
      obtain ⟨others, distinct⟩ := List.pairwise_cons.mp distinct
      rcases List.mem_cons.mp inside with rfl | later
      · simp
      · rw [List.find?_cons_of_neg (by simpa using others ph later)]
        exact ih distinct later

end Atalanta.ElfLoader
