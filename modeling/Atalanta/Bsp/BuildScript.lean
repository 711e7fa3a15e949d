import Mathlib.Data.Finset.Dedup
import Mathlib.Data.Finset.Erase
import Mathlib.Data.Finset.Insert

/-! The ISA extensions that `build.rs` reads off the target and the encoded compiler flags. -/

namespace Atalanta.BuildScript

inductive Panic
  | indexOutOfBounds
  | unsupportedOperation
deriving DecidableEq

def validRiscvExtensions : List Char := ['i', 'e', 'm', 'c', 'a', 'f', 'd']

-- `trim_start_matches` removes the prefix as often as it is there
def trimRiscv : List Char → List Char
  | 'r' :: 'i' :: 's' :: 'c' :: 'v' :: rest => trimRiscv rest
  | target => target

def archOf (target : List Char) : List Char := ((trimRiscv target).splitOn '-').headD []

def lettersOf (arch : List Char) : Finset Char :=
  (arch.dropWhile Char.isDigit).toFinset

def expandG (extensions : Finset Char) : Finset Char :=
  if 'g' ∈ extensions then
    insert 'd' (insert 'f' (insert 'a' (insert 'm' (insert 'i' extensions))))
  else extensions

def featurePrefix : List Char := "target-feature=".toList

def featureArgs (cargoFlags : List Char) : List (List Char) :=
  ((cargoFlags.splitOn (Char.ofNat 0x1f)).filter fun arg => !arg.isEmpty).filter fun arg =>
    featurePrefix.isPrefixOf arg

-- a second `=` ends what is read of the argument
def readFeatures (cargoFlags : List Char) : List (List Char) :=
  (featureArgs cargoFlags).flatMap fun arg => ((arg.splitOn '=').getD 1 []).splitOn ','

def applyFeature (extensions : Finset Char) (feature : List Char) :
    Except Panic (Finset Char) :=
  match feature with
  | [] => .error .indexOutOfBounds
  | '+' :: [] => .error .indexOutOfBounds
  | '+' :: extension :: _ => .ok (insert extension extensions)
  | '-' :: [] => .error .indexOutOfBounds
  | '-' :: extension :: _ => .ok (extensions.erase extension)
  | _ => .error .unsupportedOperation

def applyFeatures : List (List Char) → Finset Char → Except Panic (Finset Char)
  | [], extensions => .ok extensions
  | feature :: features, extensions =>
      (applyFeature extensions feature).bind (applyFeatures features)

def parseExtensions (target cargoFlags : List Char) : Except Panic (Finset Char) :=
  applyFeatures (readFeatures cargoFlags) (expandG (lettersOf (archOf target)))

/-! What the result is to be -/

/-- A target `riscv<digits><letters>-<rest>`. -/
structure Target where
  digits : List Char
  letters : List Char
  rest : List Char
  width : digits ≠ []
  digit : ∀ char ∈ digits, char.isDigit = true
  letter : ∀ char ∈ letters, char.isAlpha = true

def Target.text (target : Target) : List Char :=
  "riscv".toList ++ (target.digits ++ target.letters ++ '-' :: target.rest)

def Target.names (target : Target) (extension : Char) : Bool :=
  target.letters.contains extension ||
    (target.letters.contains 'g' && ['i', 'm', 'a', 'f', 'd'].contains extension)

/-- The items of all `target-feature=` arguments. -/
def items (cargoFlags : List Char) : List (List Char) :=
  (featureArgs cargoFlags).flatMap fun arg => (arg.drop featurePrefix.length).splitOn ','

/-- The sign of an item that is `+` or `-` and the extension. -/
def signOf (extension : Char) : List Char → Option Bool
  | ['+', name] => if name = extension then some true else none
  | ['-', name] => if name = extension then some false else none
  | _ => none

/-- The sign of an item whose name begins with the extension's letter. -/
def leadingSign (extension : Char) : List Char → Option Bool
  | '+' :: first :: _ => if first = extension then some true else none
  | '-' :: first :: _ => if first = extension then some false else none
  | _ => none

def lastSign (read : List Char → Option Bool) (features : List (List Char)) : Option Bool :=
  (features.filterMap read).getLast?

def enabled (target : Target) (cargoFlags : List Char) (extension : Char) : Bool :=
  (lastSign (signOf extension) (items cargoFlags)).getD (target.names extension)

def ParsesExactly (target : Target) (cargoFlags : List Char) : Prop :=
  ∃ extensions, parseExtensions target.text cargoFlags = .ok extensions ∧
    ∀ extension ∈ validRiscvExtensions,
      (extension ∈ extensions ↔ enabled target cargoFlags extension = true)

def Readable (feature : List Char) : Prop :=
  ∃ sign name, (sign = '+' ∨ sign = '-') ∧ name ≠ [] ∧ feature = sign :: name

/-- The condition on the flags under which the letters that names begin with do no harm. -/
structure Unambiguous (target : Target) (cargoFlags : List Char) : Prop where
  readable : ∀ feature ∈ readFeatures cargoFlags, Readable feature
  leading : ∀ extension ∈ validRiscvExtensions, ∀ sign,
    lastSign (leadingSign extension) (readFeatures cargoFlags) = some sign →
      lastSign (signOf extension) (items cargoFlags) = some sign ∨
        lastSign (signOf extension) (items cargoFlags) = none ∧ target.names extension = sign
  unread : ∀ extension ∈ validRiscvExtensions,
    lastSign (leadingSign extension) (readFeatures cargoFlags) = none →
      ∀ sign, lastSign (signOf extension) (items cargoFlags) = some sign →
        sign = target.names extension

/-! Reading the features -/

theorem lastSign_cons (read : List Char → Option Bool) (feature : List Char)
    (features : List (List Char)) :
    lastSign read (feature :: features) = (lastSign read features).or (read feature) := by
  unfold lastSign
  rw [List.filterMap_cons]
  cases read feature with
  | none => rw [Option.or_none]
  | some sign =>
      rw [List.getLast?_cons]
      cases (features.filterMap read).getLast? with
      | none => rfl
      | some last => rfl

theorem applyFeature_readable {feature : List Char} (readable : Readable feature)
    (extensions : Finset Char) :
    ∃ next, applyFeature extensions feature = .ok next ∧ ∀ extension,
      (extension ∈ next ↔
        (leadingSign extension feature).getD (decide (extension ∈ extensions)) = true) := by
  obtain ⟨sign, name, signs, nonempty, rfl⟩ := readable
  obtain ⟨first, others, rfl⟩ := List.exists_cons_of_ne_nil nonempty
  rcases signs with rfl | rfl
  · refine ⟨_, rfl, fun extension => ?_⟩
    by_cases same : first = extension
    · simp [leadingSign, same]
    · simp [leadingSign, same, Ne.symm same]
  · refine ⟨_, rfl, fun extension => ?_⟩
    by_cases same : first = extension
    · simp [leadingSign, same]
    · simp [leadingSign, same, Ne.symm same]

theorem readable_of_ok {feature : List Char} {extensions next : Finset Char}
    (applied : applyFeature extensions feature = .ok next) : Readable feature := by
  unfold applyFeature at applied
  split at applied
  · cases applied
  · cases applied
  · rename_i first others
    exact ⟨'+', first :: others, .inl rfl, List.cons_ne_nil _ _, rfl⟩
  · cases applied
  · rename_i first others
    exact ⟨'-', first :: others, .inr rfl, List.cons_ne_nil _ _, rfl⟩
  · cases applied

/-- Each feature sets its first letter, so the last one that begins with a letter decides. -/
theorem applyFeatures_readable {features : List (List Char)}
    (readable : ∀ feature ∈ features, Readable feature) (extensions : Finset Char) :
    ∃ last, applyFeatures features extensions = .ok last ∧ ∀ extension,
      (extension ∈ last ↔
        (lastSign (leadingSign extension) features).getD
          (decide (extension ∈ extensions)) = true) := by
  induction features generalizing extensions with
  | nil => exact ⟨extensions, rfl, fun extension => by simp [lastSign]⟩
  | cons feature features ih =>
      obtain ⟨next, applied, member⟩ :=
        applyFeature_readable (readable feature (List.mem_cons_self ..)) extensions
      obtain ⟨last, ran, members⟩ :=
        ih (fun other inside => readable other (List.mem_cons_of_mem _ inside)) next
      refine ⟨last, ?_, fun extension => ?_⟩
      · rw [applyFeatures, applied]
        exact ran
      · rw [members, lastSign_cons]
        cases lastSign (leadingSign extension) features with
        | some sign => rfl
        | none => rw [Option.none_or, Option.getD_none, decide_eq_true_iff, member]

theorem readable_of_applied {features : List (List Char)} {extensions last : Finset Char}
    (ran : applyFeatures features extensions = .ok last) :
    ∀ feature ∈ features, Readable feature := by
  induction features generalizing extensions with
  | nil =>
      intro feature inside
      cases inside
  | cons first features ih =>
      rw [applyFeatures] at ran
      cases applied : applyFeature extensions first with
      | error panic =>
          rw [applied] at ran
          cases ran
      | ok next =>
          rw [applied] at ran
          intro feature inside
          rcases List.mem_cons.mp inside with rfl | later
          · exact readable_of_ok applied
          · exact ih ran feature later

/-! Reading the target -/

theorem archOf_text (target : Target) :
    archOf target.text = target.digits ++ target.letters := by
  obtain ⟨digits, letters, rest, width, digit, letter⟩ := target
  obtain ⟨first, others, rfl⟩ := List.exists_cons_of_ne_nil width
  have notR : first ≠ 'r' := by
    rintro rfl
    have is := digit 'r' (List.mem_cons_self ..)
    exact absurd is (by decide)
  have trimmed : trimRiscv (Target.text ⟨first :: others, letters, rest, width, digit, letter⟩) =
      (first :: others) ++ letters ++ '-' :: rest := by
    change trimRiscv (first :: (others ++ letters ++ '-' :: rest)) = _
    unfold trimRiscv
    split
    · rename_i begins
      exact absurd (List.cons.inj begins).1 notR
    · rfl
  have noDash : '-' ∉ (first :: others) ++ letters := by
    intro inside
    rcases List.mem_append.mp inside with inside | inside
    · exact absurd (digit '-' inside) (by decide)
    · exact absurd (letter '-' inside) (by decide)
  rw [archOf, trimmed, List.splitOn_append_cons_self_of_not_mem noDash, List.headD_cons]

theorem not_digit_of_alpha {char : Char} (alpha : char.isAlpha = true) :
    ¬char.isDigit = true := by
  intro digit
  delta Char.isAlpha Char.isUpper Char.isLower at alpha
  delta Char.isDigit at digit
  simp only [Bool.or_eq_true, Bool.and_eq_true, decide_eq_true_eq, ge_iff_le,
    UInt32.le_iff_toNat_le] at alpha digit
  have digits : char.val.toNat ≤ 57 := digit.2
  rcases alpha with upper | lower
  · have above : 65 ≤ char.val.toNat := upper.1
    omega
  · have above : 97 ≤ char.val.toNat := lower.1
    omega

theorem lettersOf_text (target : Target) :
    lettersOf (archOf target.text) = target.letters.toFinset := by
  rw [archOf_text, lettersOf, List.dropWhile_append_of_pos target.digit]
  cases letters : target.letters with
  | nil => rfl
  | cons first others =>
      have alpha := target.letter first (letters ▸ List.mem_cons_self ..)
      rw [List.dropWhile_cons_of_neg (not_digit_of_alpha alpha)]

theorem mem_expandG (target : Target) (extension : Char) :
    extension ∈ expandG (lettersOf (archOf target.text)) ↔ target.names extension = true := by
  rw [lettersOf_text, expandG, Target.names]
  by_cases general : 'g' ∈ target.letters
  · simp only [List.mem_toFinset, general, if_true, Finset.mem_insert, List.contains_eq_mem,
      Bool.or_eq_true, decide_eq_true_eq, List.mem_cons, List.not_mem_nil, or_false]
    grind
  · simp [general]

/-- The script finds the extensions exactly when no longer name overrules its first letter. -/
theorem parseExtensions_iff (target : Target) (cargoFlags : List Char) :
    ParsesExactly target cargoFlags ↔ Unambiguous target cargoFlags := by
  have start (extension : Char) :
      decide (extension ∈ expandG (lettersOf (archOf target.text))) = target.names extension := by
    rw [Bool.eq_iff_iff, decide_eq_true_iff, mem_expandG]
  constructor
  · rintro ⟨extensions, parsed, exact_⟩
    have readable := readable_of_applied parsed
    obtain ⟨last, ran, members⟩ := applyFeatures_readable readable
      (expandG (lettersOf (archOf target.text)))
    obtain rfl := Except.ok.inj (parsed.symm.trans ran)
    refine ⟨readable, fun extension valid sign leads => ?_, fun extension valid none sign own => ?_⟩
    · have same := (members extension).symm.trans (exact_ extension valid)
      rw [leads, Option.getD_some, ← Bool.eq_iff_iff, enabled] at same
      cases own : lastSign (signOf extension) (items cargoFlags) with
      | some other =>
          rw [own, Option.getD_some] at same
          exact .inl (congrArg some same.symm)
      | none =>
          rw [own, Option.getD_none] at same
          exact .inr ⟨rfl, same.symm⟩
    · have same := (members extension).symm.trans (exact_ extension valid)
      rw [none, Option.getD_none, start, ← Bool.eq_iff_iff, enabled, own, Option.getD_some] at same
      exact same.symm
  · intro unambiguous
    obtain ⟨last, ran, members⟩ := applyFeatures_readable unambiguous.readable
      (expandG (lettersOf (archOf target.text)))
    refine ⟨last, ran, fun extension valid => ?_⟩
    rw [members, ← Bool.eq_iff_iff]
    cases leads : lastSign (leadingSign extension) (readFeatures cargoFlags) with
    | some sign =>
        rcases unambiguous.leading extension valid sign leads with own | ⟨none, named⟩
        · rw [enabled, own]
          rfl
        · rw [enabled, none]
          exact named.symm
    | none =>
        rw [Option.getD_none, start, enabled]
        cases own : lastSign (signOf extension) (items cargoFlags) with
        | some sign => exact (unambiguous.unread extension valid leads sign own).symm
        | none => rfl

def riscv32imac : Target where
  digits := ['3', '2']
  letters := ['i', 'm', 'a', 'c']
  rest := "unknown-none-elf".toList
  width := by decide
  digit := by simp
  letter := by
    simp only [List.mem_cons, List.not_mem_nil, or_false, forall_eq_or_imp, forall_eq]
    decide

/-- A feature's name enables the extension of its first letter, and an empty list panics. -/
theorem parseExtensions_misreads :
    ¬ParsesExactly riscv32imac "target-feature=+forced-atomics".toList ∧
      parseExtensions riscv32imac.text "target-feature=".toList = .error .indexOutOfBounds := by
  refine ⟨?_, by decide⟩
  rintro ⟨extensions, parsed, exact_⟩
  have found : (parseExtensions riscv32imac.text "target-feature=+forced-atomics".toList).map
      (fun extensions => decide ('f' ∈ extensions)) = .ok true := by decide
  rw [parsed] at found
  have misread := (exact_ 'f' (by decide)).mp (of_decide_eq_true (Except.ok.inj found))
  exact absurd misread (by decide)

end Atalanta.BuildScript
