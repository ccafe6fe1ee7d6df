import Deinstrument.Import
import Deinstrument.Proofs.PackageLists

/-!
# Assumed package names

The name of a package is guessed from its path: it starts the last element, or
the one in front of it if the last one is a major version. So a major version at
the end of a path has no part in the name, unless another one stands in front of
it. Whatever the path is, the name is an unbroken part of it and holds letters,
digits and underscores only.
-/

namespace Deinstrument.Import

/-! ## The last element of a path -/

/-- What stands behind the last slash of a path, or the whole path if there is
no slash in it. -/
structure IsLastElement (path element : Text) : Prop where
  undivided : '/' ∉ element
  ends : path = element ∨ ∃ front, path = front ++ '/' :: element

/-- The letter `v` and decimal digits. -/
def IsMajorVersion (element : Text) : Prop :=
  ∃ digits, digits ≠ [] ∧ (∀ digit ∈ digits, digit.isDigit = true) ∧ element = 'v' :: digits

/-- The characters of which names consist. -/
def isNamePart (character : Char) : Bool :=
  Text.isAlphanumeric character || character == '_'

theorem exists_lastElement (path : Text) : ∃ element, IsLastElement path element := by
  induction path with
  | nil => exact ⟨[], by simp, .inl rfl⟩
  | cons first rest ih =>
      obtain ⟨element, undivided, rfl | ⟨front, rfl⟩⟩ := ih
      · by_cases hslash : first = '/'
        · exact ⟨rest, undivided, .inr ⟨[], by rw [hslash]; rfl⟩⟩
        · exact ⟨first :: rest, by simp [undivided, Ne.symm hslash], .inl rfl⟩
      · exact ⟨element, undivided, .inr ⟨first :: front, rfl⟩⟩

theorem IsMajorVersion.undivided {element : Text} (version : IsMajorVersion element) :
    '/' ∉ element := by
  obtain ⟨digits, -, hdigits, rfl⟩ := version
  rw [List.mem_cons, not_or]
  exact ⟨by decide, fun member => absurd (hdigits '/' member) (by decide)⟩

theorem isVersion_iff {element : Text} : isVersion element = true ↔ IsMajorVersion element := by
  unfold isVersion
  split
  next digit digits =>
    rw [List.all_eq_true]
    constructor
    · intro hdigits
      exact ⟨digit :: digits, List.cons_ne_nil _ _, hdigits, rfl⟩
    · rintro ⟨_, -, hdigits, heq⟩
      cases heq
      exact hdigits
  next other =>
    refine iff_of_false Bool.false_ne_true ?_
    rintro ⟨digits, hdigits, -, rfl⟩
    obtain ⟨digit, digits, rfl⟩ := List.exists_cons_of_ne_nil hdigits
    exact other digit digits rfl

namespace IsLastElement

variable {path element : Text}

theorem suffix (last : IsLastElement path element) : element <:+ path := by
  obtain ⟨-, rfl | ⟨front, rfl⟩⟩ := last
  · exact List.suffix_refl path
  · exact ⟨front ++ ['/'], by simp⟩

/-- The last element comes last when a path is split. -/
theorem exists_splitOn (last : IsLastElement path element) :
    ∃ earlier, Text.splitOn '/' path = earlier ++ [element] := by
  obtain ⟨undivided, rfl | ⟨front, rfl⟩⟩ := last
  · exact ⟨[], Text.splitOn_of_not_mem undivided⟩
  · rw [Text.splitOn_append_cons, Text.splitOn_of_not_mem undivided]
    exact ⟨_, rfl⟩

/-- An element that is no version names the package. -/
theorem namingElement_eq (last : IsLastElement path element) (plain : ¬IsMajorVersion element) :
    namingElement path = element := by
  obtain ⟨earlier, hsplit⟩ := last.exists_splitOn
  rw [namingElement, hsplit, List.reverse_concat]
  cases earlier.reverse with
  | nil => rfl
  | cons previous more => exact if_neg fun version => plain (isVersion_iff.mp version)

/-- In front of a version, the last element of what is left names the package. -/
theorem namingElement_append (last : IsLastElement path element) {version : Text}
    (major : IsMajorVersion version) : namingElement (path ++ '/' :: version) = element := by
  obtain ⟨earlier, hsplit⟩ := last.exists_splitOn
  rw [namingElement, Text.splitOn_append_cons, Text.splitOn_of_not_mem major.undivided, hsplit,
    List.reverse_concat, List.reverse_concat]
  exact if_pos (isVersion_iff.mpr major)

end IsLastElement

theorem isPart_namingElement (path : Text) : namingElement path <:+: path := by
  obtain ⟨element, last⟩ := exists_lastElement path
  by_cases major : IsMajorVersion element
  · obtain ⟨undivided, rfl | ⟨front, rfl⟩⟩ := last
    · -- A path that is nothing but a version is named by it.
      rw [namingElement, Text.splitOn_of_not_mem undivided]
      exact List.infix_refl path
    · obtain ⟨previous, hprevious⟩ := exists_lastElement front
      rw [hprevious.namingElement_append major]
      exact hprevious.suffix.isInfix.trans (List.prefix_append front _).isInfix
  · rw [last.namingElement_eq major]
    exact last.suffix.isInfix

/-! ## The start of the naming element -/

theorem dropGo_suffix (text : Text) : dropGo text <:+ text := by
  unfold dropGo
  split
  next rest => exact ⟨['g', 'o', '-'], rfl⟩
  next => exact List.suffix_refl text

theorem assumedName_eq (path : Text) :
    assumedName path = (dropGo (namingElement path)).takeWhile isNamePart :=
  rfl

theorem isPart_assumedName (path : Text) : assumedName path <:+: path := by
  rw [assumedName_eq]
  exact (List.takeWhile_prefix isNamePart).isInfix.trans
    ((dropGo_suffix _).isInfix.trans (isPart_namingElement path))

/-- A path whose last element is no major version is named by that element: the
name is the longest start of it, behind `go-`, that consists of letters, digits
and underscores. A major version behind such a path does not change the name. For
every path the name consists of these characters and is an unbroken part of the
path. -/
theorem assumedName_ignores_version (path : Text) :
    (∀ element, IsLastElement path element → ¬IsMajorVersion element →
      (∃ rest, dropGo element = assumedName path ++ rest ∧
        ∀ character, rest.head? = some character → isNamePart character = false) ∧
      ∀ version, IsMajorVersion version →
        assumedName (path ++ '/' :: version) = assumedName path) ∧
    (∀ character ∈ assumedName path,
      Text.isAlphanumeric character = true ∨ character = '_') ∧
    assumedName path <:+: path := by
  refine ⟨fun element last plain => ⟨⟨(dropGo element).dropWhile isNamePart, ?_, ?_⟩, ?_⟩, ?_,
    isPart_assumedName path⟩
  · rw [assumedName_eq, last.namingElement_eq plain, List.takeWhile_append_dropWhile]
  · intro character found
    have hstops := List.head?_dropWhile_not isNamePart (dropGo element)
    rw [found] at hstops
    exact hstops
  · intro version major
    rw [assumedName_eq, assumedName_eq, last.namingElement_append major,
      last.namingElement_eq plain]
  · intro character member
    have hpart : isNamePart character = true := List.mem_takeWhile_imp member
    simpa [isNamePart] using hpart

/-- A path whose last element starts with `go-`. -/
def searchPath : Text :=
  "github.com/elastic/go-elasticsearch".toList

theorem assumedName_ignores_version_searchPath :
    IsLastElement searchPath "go-elasticsearch".toList ∧
    ¬IsMajorVersion "go-elasticsearch".toList ∧ IsMajorVersion "v7".toList ∧
    assumedName (searchPath ++ '/' :: "v7".toList) = assumedName searchPath ∧
    assumedName searchPath = "elasticsearch".toList := by
  have last : IsLastElement searchPath "go-elasticsearch".toList :=
    ⟨by decide, .inr ⟨"github.com/elastic".toList, rfl⟩⟩
  have plain : ¬IsMajorVersion "go-elasticsearch".toList := by
    rintro ⟨digits, -, -, heq⟩
    cases heq
  have major : IsMajorVersion "v7".toList := ⟨['7'], by decide, List.forall_mem_singleton.mpr rfl, rfl⟩
  exact ⟨last, plain, major,
    ((assumedName_ignores_version searchPath).1 _ last plain).2 _ major, by decide +kernel⟩

end Deinstrument.Import
