import Deinstrument.Import.Prune
import Deinstrument.Proofs.Blanks

/-!
# Widening extents to whole lines

An extent that is alone on its lines is widened to them, and perhaps to a blank
line below or above. Two extents that do not share a line stay apart when they
are widened, unless both lay claim to the one blank line between them: the first
because a blank line stands above it, too, and the second because a parenthesis
follows.
-/

namespace Deinstrument.Extent

open Go (lineRest isLineEnd)

/-- Two extents without a common position. -/
def Disjoint (first second : Extent) : Prop :=
  first.stop ≤ second.start ∨ second.stop ≤ first.start

instance (first second : Extent) : Decidable (first.Disjoint second) :=
  inferInstanceAs (Decidable (_ ∨ _))

/-! ## Lines -/

theorem newline_not_mem_lineRest (text : Text) : '\n' ∉ lineRest text := by
  intro member
  have := List.mem_takeWhile_imp member
  simp at this

/-- The rest of a line with what stands behind it. -/
theorem exists_lineRest (text : Text) :
    ∃ behind, text = lineRest text ++ behind ∧
      (behind = [] ∨ ∃ later, behind = '\n' :: later) := by
  refine ⟨text.dropWhile (· != '\n'), List.takeWhile_append_dropWhile.symm, ?_⟩
  cases hbehind : text.dropWhile (· != '\n') with
  | nil => exact .inl rfl
  | cons first later =>
      have hfirst := List.head?_dropWhile_not (· != '\n') text
      rw [hbehind] at hfirst
      simp at hfirst
      exact .inr ⟨later, by rw [hfirst]⟩

/-- The line of a position, up to the position. -/
theorem exists_lineStart (text : Text) (position : Nat) :
    ∃ above indent, text.take position = above ++ indent ∧
      (position ≤ text.length → above.length = lineStart text position) ∧ '\n' ∉ indent ∧
      (above = [] ∨ above.getLast? = some '\n') := by
  let reversed := (text.take position).reverse
  have hsplit : reversed.takeWhile (· != '\n') ++ reversed.dropWhile (· != '\n') = reversed :=
    List.takeWhile_append_dropWhile
  refine ⟨(reversed.dropWhile (· != '\n')).reverse, (reversed.takeWhile (· != '\n')).reverse,
    ?_, ?_, ?_, ?_⟩
  · rw [← List.reverse_append, hsplit, List.reverse_reverse]
  · intro hinside
    have hlength := congrArg List.length hsplit
    simp only [List.length_append, reversed, List.length_reverse, List.length_take] at hlength
    rw [List.length_reverse]
    simp only [lineStart, reversed]
    omega
  · intro member
    have := List.mem_takeWhile_imp (List.mem_reverse.mp member)
    simp at this
  · cases habove : reversed.dropWhile (· != '\n') with
    | nil => exact .inl rfl
    | cons last above =>
        have hlast := List.head?_dropWhile_not (· != '\n') reversed
        rw [habove] at hlast
        simp at hlast
        exact .inr (by simp [hlast])

theorem lineStart_le (text : Text) (position : Nat) : lineStart text position ≤ position :=
  Nat.sub_le _ _

section Lines

variable {text : Text} {position : Nat}

/-- A line starts behind the line breaks in front of its positions. -/
theorem lt_lineStart (inside : position ≤ text.length) {place : Nat} (before : place < position)
    (newline : text[place]? = some '\n') : place < lineStart text position := by
  obtain ⟨above, indent, hsplit, hlength, hindent, -⟩ := exists_lineStart text position
  rw [← hlength inside]
  by_contra hbehind
  have hplace : (above ++ indent)[place]? = some '\n' := by
    rw [← hsplit, List.getElem?_take, if_pos before, newline]
  rw [List.getElem?_append_right (Nat.le_of_not_lt hbehind)] at hplace
  exact hindent (List.mem_of_getElem? hplace)

end Lines

/-- The end of the line that holds the end of an extent. -/
def lineEnd (text : Text) (extent : Extent) : Nat :=
  extent.stop + (lineRest (text.drop extent.stop)).length

/-- The end of that line with its line break. -/
def lineStop (text : Text) (extent : Extent) : Nat :=
  if lineEnd text extent < text.length then lineEnd text extent + 1 else lineEnd text extent

section LineEnd

variable {text : Text} {extent : Extent}

theorem le_lineEnd (text : Text) (extent : Extent) : extent.stop ≤ lineEnd text extent :=
  Nat.le_add_right _ _

theorem lineEnd_le (inside : extent.stop ≤ text.length) : lineEnd text extent ≤ text.length := by
  obtain ⟨behind, hsplit, -⟩ := exists_lineRest (text.drop extent.stop)
  have hlength := congrArg List.length hsplit
  rw [List.length_drop, List.length_append] at hlength
  simp only [lineEnd]
  omega

theorem getElem?_lineEnd (before : lineEnd text extent < text.length) :
    text[lineEnd text extent]? = some '\n' := by
  obtain ⟨behind, hsplit, hends⟩ := exists_lineRest (text.drop extent.stop)
  have hplace : text[lineEnd text extent]? = behind[0]? := by
    rw [lineEnd, ← List.getElem?_drop]
    nth_rewrite 1 [hsplit]
    rw [List.getElem?_append_right (Nat.le_refl _), Nat.sub_self]
  rcases hends with rfl | ⟨later, rfl⟩
  · rw [List.getElem?_eq_getElem before] at hplace
    cases hplace
  · exact hplace

/-- There is no line break in front of the end of a line. -/
theorem getElem?_ne_of_lt_lineEnd {place : Nat} (behind : extent.stop ≤ place)
    (before : place < lineEnd text extent) : text[place]? ≠ some '\n' := by
  intro hnewline
  obtain ⟨offset, rfl⟩ := Nat.exists_eq_add_of_le behind
  obtain ⟨later, hsplit, -⟩ := exists_lineRest (text.drop extent.stop)
  have hoffset : offset < (lineRest (text.drop extent.stop)).length := by
    simp only [lineEnd] at before
    omega
  rw [← List.getElem?_drop, hsplit, List.getElem?_append_left hoffset] at hnewline
  exact newline_not_mem_lineRest _ (List.mem_of_getElem? hnewline)

/-- A line that does not end the text ends with a line break. -/
theorem lineStop_of_lt {limit : Nat} (inside : limit ≤ text.length)
    (before : lineEnd text extent < limit) : lineStop text extent = lineEnd text extent + 1 :=
  if_pos (Nat.lt_of_lt_of_le before inside)

theorem lineStop_bounds (inside : extent.stop ≤ text.length) :
    extent.stop ≤ lineStop text extent ∧ lineStop text extent ≤ text.length := by
  have hle := le_lineEnd text extent
  have hend := lineEnd_le inside
  simp only [lineStop]
  split <;> omega

end LineEnd

/-! ## Widening -/

/-- Whether there is nothing else on the lines of an extent but blanks in front
of it and a line comment behind it. -/
def isAlone (text : Text) (extent : Extent) : Bool :=
  ((text.take extent.start).drop (lineStart text extent.start)).all Text.isBlank &&
    isLineEnd (text.drop extent.stop)

/-- Whether a line that starts at a position has a blank line or nothing above. -/
def blankAbove (text : Text) (first : Nat) : Bool :=
  first == 0 || (2 ≤ first && text[first - 1]? == some '\n' && text[first - 2]? == some '\n')

/-- Whether a closing parenthesis comes next behind a position. -/
def closesBelow (text : Text) (position : Nat) : Bool :=
  Text.startsWith (Text.trimStart (text.drop position)) [')']

/-- What an extent is widened to. -/
inductive Widening (text : Text) (extent : Extent) : Extent → Prop
  /-- Something else stands on the same lines. -/
  | none (shared : isAlone text extent = false) : Widening text extent extent
  | lines (alone : isAlone text extent = true) :
      Widening text extent ⟨lineStart text extent.start, lineStop text extent⟩
  /-- The blank line below goes, too. -/
  | below (alone : isAlone text extent = true)
      (blank : blankAbove text (lineStart text extent.start) = true)
      (empty : text[lineStop text extent]? = some '\n') :
      Widening text extent ⟨lineStart text extent.start, lineStop text extent + 1⟩
  /-- The blank line above goes, too. -/
  | above (alone : isAlone text extent = true)
      (blank : blankAbove text (lineStart text extent.start) = true)
      (later : lineStart text extent.start ≠ 0)
      (filled : text[lineStop text extent]? ≠ some '\n')
      (closes : closesBelow text (lineStop text extent) = true) :
      Widening text extent ⟨lineStart text extent.start - 1, lineStop text extent⟩

theorem wholeLines_eq (text : Text) (extent : Extent) :
    wholeLines text extent =
      if isAlone text extent then
        if blankAbove text (lineStart text extent.start) &&
            text[lineStop text extent]? == some '\n' then
          ⟨lineStart text extent.start, lineStop text extent + 1⟩
        else if blankAbove text (lineStart text extent.start) &&
            lineStart text extent.start != 0 && closesBelow text (lineStop text extent) then
          ⟨lineStart text extent.start - 1, lineStop text extent⟩
        else ⟨lineStart text extent.start, lineStop text extent⟩
      else extent := by
  rw [isAlone]
  -- The two tests for being alone are made one after the other.
  cases hindent :
      ((text.take extent.start).drop (lineStart text extent.start)).all Text.isBlank with
  | false =>
      simp only [wholeLines, hindent]
      rfl
  | true =>
      have hline : ((Text.trimStart ((text.drop extent.stop).takeWhile (· != '\n'))).isEmpty ||
          Text.startsWith (Text.trimStart ((text.drop extent.stop).takeWhile (· != '\n')))
            ['/', '/']) = isLineEnd (text.drop extent.stop) := rfl
      simp only [wholeLines, hindent, hline]
      cases isLineEnd (text.drop extent.stop) <;> rfl

theorem widening (text : Text) (extent : Extent) :
    Widening text extent (wholeLines text extent) := by
  rw [wholeLines_eq]
  split
  · rename_i halone
    split
    · rename_i hbelow
      obtain ⟨hblank, hempty⟩ := Bool.and_eq_true_iff.mp hbelow
      exact .below halone hblank (beq_iff_eq.mp hempty)
    · rename_i hbelow
      split
      · rename_i habove
        obtain ⟨habove, hcloses⟩ := Bool.and_eq_true_iff.mp habove
        obtain ⟨hblank, hlater⟩ := Bool.and_eq_true_iff.mp habove
        refine .above halone hblank (bne_iff_ne.mp hlater) ?_ hcloses
        intro hempty
        exact hbelow (Bool.and_eq_true_iff.mpr ⟨hblank, beq_iff_eq.mpr hempty⟩)
      · exact .lines halone
  · rename_i hshared
    exact .none (Bool.eq_false_iff.mpr hshared)

/-- An extent in a text whose first and last characters are no blanks. -/
structure Stands (text : Text) (extent : Extent) : Prop where
  nonempty : extent.start < extent.stop
  inside : extent.stop ≤ text.length
  opens : ∀ character, text[extent.start]? = some character → Text.isBlank character = false
  closes : ∀ character, text[extent.stop - 1]? = some character → Text.isBlank character = false

namespace Stands

variable {text : Text} {extent : Extent}

/-- An extent stands in a text if the characters at its ends are known. -/
theorem of_getElem? {first last : Char} (nonempty : extent.start < extent.stop)
    (opens : text[extent.start]? = some first) (closes : text[extent.stop - 1]? = some last)
    (solid : Text.isBlank first = false ∧ Text.isBlank last = false) : Stands text extent := by
  obtain ⟨hinside, -⟩ := List.getElem?_eq_some_iff.mp closes
  refine ⟨nonempty, by omega, fun character found => ?_, fun character found => ?_⟩
  · cases opens.symm.trans found
    exact solid.1
  · cases closes.symm.trans found
    exact solid.2

theorem opens_ne (stands : Stands text extent) : text[extent.start]? ≠ some '\n' := by
  intro hnewline
  cases stands.opens _ hnewline

theorem closes_ne (stands : Stands text extent) : text[extent.stop - 1]? ≠ some '\n' := by
  intro hnewline
  cases stands.closes _ hnewline

theorem start_le (stands : Stands text extent) : extent.start ≤ text.length :=
  Nat.le_trans (Nat.le_of_lt stands.nonempty) stands.inside

/-- Widening an extent leaves it inside of the text. -/
theorem wholeLines (stands : Stands text extent) :
    (wholeLines text extent).start ≤ extent.start ∧
      extent.stop ≤ (wholeLines text extent).stop ∧
      (wholeLines text extent).stop ≤ text.length := by
  have hstart := lineStart_le text extent.start
  obtain ⟨hstop, hinside⟩ := lineStop_bounds stands.inside
  have hwidening := widening text extent
  generalize Extent.wholeLines text extent = widened at hwidening ⊢
  cases hwidening with
  | none shared => exact ⟨Nat.le_refl _, Nat.le_refl _, stands.inside⟩
  | lines alone => exact ⟨hstart, hstop, hinside⟩
  | below alone blank empty =>
      obtain ⟨hlength, -⟩ := List.getElem?_eq_some_iff.mp empty
      exact ⟨hstart, Nat.le_succ_of_le hstop, hlength⟩
  | above alone blank later filled closes =>
      exact ⟨Nat.le_trans (Nat.sub_le _ _) hstart, hstop, hinside⟩

end Stands

/-- An extent ends before a limit, and its line does so with its line break if
nothing but a line comment follows on it. -/
structure Clears (text : Text) (extent : Extent) (limit : Nat) : Prop where
  stop_le : extent.stop ≤ limit
  line : isLineEnd (text.drop extent.stop) = true → lineEnd text extent < limit

theorem Clears.mono {text : Text} {extent : Extent} {limit more : Nat}
    (clears : Clears text extent limit) (le : limit ≤ more) : Clears text extent more :=
  ⟨Nat.le_trans clears.stop_le le, fun ends => Nat.lt_of_lt_of_le (clears.line ends) le⟩

/-- Whether two extents, widened, both contain the blank line between them. -/
def contend (text : Text) (first second : Extent) : Bool :=
  isAlone text first && blankAbove text (lineStart text first.start) &&
    text[lineStop text first]? == some '\n' && isAlone text second &&
    lineStart text second.start == lineStop text first + 1 &&
    text[lineStop text second]? != some '\n' && closesBelow text (lineStop text second)

section Pair

variable {text : Text} {first second : Extent}

/-- In front of an extent that is alone on its lines stand blanks. -/
theorem isBlank_of_isAlone {extent : Extent} (alone : isAlone text extent = true) {place : Nat}
    (behind : lineStart text extent.start ≤ place) (before : place < extent.start)
    {character : Char} (found : text[place]? = some character) :
    Text.isBlank character = true := by
  have hindent := (Bool.and_eq_true_iff.mp alone).1
  have hmem : character ∈ (text.take extent.start).drop (lineStart text extent.start) := by
    refine List.mem_iff_getElem?.mpr ⟨place - lineStart text extent.start, ?_⟩
    rw [List.getElem?_drop, List.getElem?_take, Nat.add_sub_cancel' behind, if_pos before, found]
  exact List.all_eq_true.mp hindent _ hmem

/-- The lines of the second extent start behind the first. -/
theorem stop_le_lineStart (stands : Stands text first) (clears : Clears text first second.start)
    (alone : isAlone text second = true) :
    first.stop ≤ lineStart text second.start := by
  by_contra hbefore
  have hpos := stands.nonempty
  have hplace := clears.stop_le
  have hinside : first.stop - 1 < text.length := by
    have := stands.inside
    omega
  -- Otherwise the last character of the first extent is part of the indentation.
  have hfound := List.getElem?_eq_getElem hinside
  have hblank : Text.isBlank text[first.stop - 1] = true :=
    isBlank_of_isAlone alone (by omega) (by omega) hfound
  rw [stands.closes _ hfound] at hblank
  cases hblank

/-- The lines of the second extent start behind those of the first. -/
theorem lineStop_le_lineStart (other : Stands text second) (clears : Clears text first second.start)
    (alone : isAlone text first = true) :
    lineStop text first ≤ lineStart text second.start ∧
      lineStop text first = lineEnd text first + 1 ∧
      text[lineEnd text first]? = some '\n' := by
  have hline := clears.line (Bool.and_eq_true_iff.mp alone).2
  have hstop := lineStop_of_lt other.start_le hline
  have hnewline := getElem?_lineEnd (Nat.lt_of_lt_of_le hline other.start_le)
  rw [hstop]
  exact ⟨lt_lineStart other.start_le hline hnewline, rfl, hnewline⟩

/-- Behind a blank line that goes with the first extent. -/
theorem lineStop_lt_lineStart (other : Stands text second) (clears : Clears text first second.start)
    (alone : isAlone text first = true) (empty : text[lineStop text first]? = some '\n') :
    lineStop text first < lineStart text second.start := by
  obtain ⟨hstop, -⟩ := lineStop_le_lineStart other clears alone
  refine lt_lineStart other.start_le ?_ empty
  refine Nat.lt_of_le_of_ne (Nat.le_trans hstop (lineStart_le _ _)) ?_
  intro hsame
  exact other.opens_ne (hsame ▸ empty)

/-- The first extent, widened, ends where the second or its lines start. -/
theorem wholeLines_stop_le (stands : Stands text first) (other : Stands text second)
    (clears : Clears text first second.start) :
    (wholeLines text first).stop ≤ second.start ∧
      (isAlone text second = true →
      (wholeLines text first).stop ≤ lineStart text second.start) := by
  have hstart := lineStart_le text second.start
  have hwidening := widening text first
  generalize wholeLines text first = widened at hwidening ⊢
  cases hwidening with
  | none shared => exact ⟨clears.stop_le, stop_le_lineStart stands clears⟩
  | lines alone =>
      have hstop := (lineStop_le_lineStart other clears alone).1
      exact ⟨Nat.le_trans hstop hstart, fun _ => hstop⟩
  | below alone blank empty =>
      have hstop := lineStop_lt_lineStart other clears alone empty
      exact ⟨Nat.le_trans hstop hstart, fun _ => hstop⟩
  | above alone blank later filled closes =>
      have hstop := (lineStop_le_lineStart other clears alone).1
      exact ⟨Nat.le_trans hstop hstart, fun _ => hstop⟩

/-- There is a line break above a blank line above. -/
theorem newlines_of_blankAbove {first : Nat} (blank : blankAbove text first = true)
    (later : first ≠ 0) :
    2 ≤ first ∧ text[first - 1]? = some '\n' ∧ text[first - 2]? = some '\n' := by
  simpa [blankAbove, later, and_assoc] using blank

/-- Only blanks in front of an extent go with it. -/
theorem isBlank_of_wholeLines {extent : Extent} {place : Nat}
    (behind : (wholeLines text extent).start ≤ place) (before : place < extent.start)
    {character : Char} (found : text[place]? = some character) :
    Text.isBlank character = true := by
  have hwidening := widening text extent
  generalize wholeLines text extent = widened at hwidening behind
  cases hwidening with
  | none shared => exact absurd before (Nat.not_lt.mpr behind)
  | lines alone => exact isBlank_of_isAlone alone behind before found
  | below alone blank empty => exact isBlank_of_isAlone alone behind before found
  | above alone blank later filled closes =>
      rcases Nat.eq_or_lt_of_le behind with rfl | hinside
      · rw [(newlines_of_blankAbove blank later).2.1] at found
        cases found
        rfl
      · exact isBlank_of_isAlone alone (Nat.le_of_pred_lt hinside) before found

/-- The blank line above the second extent is not part of the lines of the first. -/
theorem lineStop_lt_of_blankAbove (stands : Stands text first) (other : Stands text second)
    (clears : Clears text first second.start) (alone : isAlone text first = true)
    (blank : blankAbove text (lineStart text second.start) = true)
    (later : lineStart text second.start ≠ 0) :
    lineStop text first < lineStart text second.start := by
  obtain ⟨hstop, hlast, -⟩ := lineStop_le_lineStart other clears alone
  obtain ⟨-, -, hnewline⟩ := newlines_of_blankAbove blank later
  refine Nat.lt_of_le_of_ne hstop fun hsame => ?_
  -- The line break above the blank line would stand in front of the end of a line.
  have hplace : lineStart text second.start - 2 = lineEnd text first - 1 := by omega
  rw [hplace] at hnewline
  rcases Nat.eq_or_lt_of_le (le_lineEnd text first) with hend | hend
  · exact stands.closes_ne (hend ▸ hnewline)
  · have hbefore : lineEnd text first - 1 < lineEnd text first := by omega
    exact getElem?_ne_of_lt_lineEnd (Nat.le_sub_one_of_lt hend) hbefore hnewline

/-- Extents that do not contend for a blank line stay apart. -/
theorem wholeLines_stop_le_start (stands : Stands text first) (other : Stands text second)
    (clears : Clears text first second.start) (settled : contend text first second = false) :
    (wholeLines text first).stop ≤ (wholeLines text second).start := by
  obtain ⟨hstop, hline⟩ := wholeLines_stop_le stands other clears
  have hwidening := widening text second
  generalize wholeLines text second = widened at hwidening ⊢
  cases hwidening with
  | none shared => exact hstop
  | lines alone => exact hline alone
  | below alone blank empty => exact hline alone
  | above alone blank later filled closes =>
      -- One more line break is claimed from above.
      have hfirst := widening text first
      have hstart := stop_le_lineStart stands clears alone
      generalize wholeLines text first = widened at hfirst ⊢
      cases hfirst with
      | none shared =>
          refine Nat.le_sub_one_of_lt (Nat.lt_of_le_of_ne hstart ?_)
          intro hsame
          refine stands.closes_ne ?_
          rw [hsame]
          exact (newlines_of_blankAbove blank later).2.1
      | lines alone =>
          exact Nat.le_sub_one_of_lt
            (lineStop_lt_of_blankAbove stands other clears alone blank later)
      | below aloneFirst blankFirst emptyFirst =>
          refine Nat.le_sub_one_of_lt (Nat.lt_of_le_of_ne
            (lineStop_lt_lineStart other clears aloneFirst emptyFirst) ?_)
          intro hsame
          have hnext : lineStart text second.start = lineStop text first + 1 := hsame.symm
          have hcontend : contend text first second = true := by
            simp [contend, aloneFirst, blankFirst, emptyFirst, alone, hnext, filled, closes]
          rw [settled] at hcontend
          cases hcontend
      | above alone blankFirst laterFirst filledFirst closesFirst =>
          exact Nat.le_sub_one_of_lt
            (lineStop_lt_of_blankAbove stands other clears alone blank later)

/-- Extents that contend for a blank line overlap there. -/
theorem wholeLines_of_contend (other : Stands text second) (clears : Clears text first second.start)
    (contends : contend text first second = true) :
    (wholeLines text first).stop = (wholeLines text second).start + 1 := by
  simp only [contend, Bool.and_eq_true, beq_iff_eq, bne_iff_ne] at contends
  obtain ⟨⟨⟨⟨⟨⟨halone, hblank⟩, hempty⟩, hsecond⟩, hnext⟩, hfilled⟩, hcloses⟩ := contends
  obtain ⟨-, hlast, hnewline⟩ := lineStop_le_lineStart other clears halone
  have hfirst : wholeLines text first =
      ⟨lineStart text first.start, lineStop text first + 1⟩ := by
    rw [wholeLines_eq]
    simp [halone, hblank, hempty]
  have habove : blankAbove text (lineStop text first + 1) = true := by
    rw [hlast] at hempty ⊢
    simp [blankAbove, hempty, hnewline]
  have hwidened : wholeLines text second = ⟨lineStop text first, lineStop text second⟩ := by
    rw [wholeLines_eq, hnext]
    simp [hsecond, habove, hfilled, hcloses]
  rw [hfirst, hwidened]

/-- Widened extents stay disjoint unless they contend for a blank line. -/
theorem disjoint_wholeLines_iff (stands : Stands text first) (other : Stands text second)
    (clears : Clears text first second.start) :
    (wholeLines text first).Disjoint (wholeLines text second) ↔
      contend text first second = false := by
  constructor
  · intro hdisjoint
    by_contra hcontends
    rw [Bool.not_eq_false] at hcontends
    have hoverlap := wholeLines_of_contend other clears hcontends
    have hfirst := stands.wholeLines
    have hsecond := other.wholeLines
    have hstop := clears.stop_le
    have hnonempty := stands.nonempty
    have hlast := other.nonempty
    rcases hdisjoint with hdisjoint | hdisjoint <;> omega
  · intro hsettled
    exact .inl (wholeLines_stop_le_start stands other clears hsettled)

end Pair

end Deinstrument.Extent
