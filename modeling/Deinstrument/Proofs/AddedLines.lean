import Deinstrument.Proofs.WholeLines

/-!
# What widening adds to an extent

An extent that is widened to its lines takes no code with it: what is added in
front of it are blanks, and what is added behind it are blanks, at most one line
comment on the line where the extent ends, and line breaks. If anything is added,
the extent starts with its line or one line break earlier, and it ends with a
line break or with the text.
-/

namespace Deinstrument.Extent

open Go (lineRest isLineEnd)

/-- The characters of a text from one position up to another. -/
def between (text : Text) (first last : Nat) : Text :=
  (text.take last).drop first

/-- A position on the line that starts at `first`. -/
structure OnLine (text : Text) (first position : Nat) : Prop where
  le : first ≤ position
  opens : first = 0 ∨ text[first - 1]? = some '\n'
  unbroken : '\n' ∉ between text first position

/-- Blanks and at most one line comment on one line, with line breaks behind. -/
def IsTrail (text : Text) : Prop :=
  ∃ blanks comment breaks, text = blanks ++ comment ++ breaks ∧
    '\n' ∉ blanks ++ comment ∧
    (∀ character ∈ blanks, Text.isBlank character = true) ∧
    (comment = [] ∨ ∃ words, comment = '/' :: '/' :: words) ∧
    ∀ character ∈ breaks, character = '\n'

/-- An extent that reaches around another up to the ends of its lines: back to the
start of a line or to the line break in front of it, and behind a line break or to
the end of the text. -/
structure CoversLines (text : Text) (extent widened : Extent) : Prop where
  front : ∃ first, OnLine text first extent.start ∧
    (widened.start = first ∨ widened.start + 1 = first)
  behind : widened.stop = text.length ∨
    extent.stop < widened.stop ∧ text[widened.stop - 1]? = some '\n'

section Between

variable {text : Text} {first last : Nat}

theorem mem_between {character : Char} (member : character ∈ between text first last) :
    ∃ place, first ≤ place ∧ place < last ∧ text[place]? = some character := by
  obtain ⟨offset, hfound⟩ := List.mem_iff_getElem?.mp member
  rw [between, List.getElem?_drop, List.getElem?_take] at hfound
  split at hfound
  · exact ⟨first + offset, Nat.le_add_right _ _, ‹_›, hfound⟩
  · cases hfound

theorem between_self (text : Text) (position : Nat) : between text position position = [] := by
  refine List.drop_eq_nil_of_le ?_
  rw [List.length_take]
  exact Nat.min_le_left _ _

theorem between_succ {character : Char} (le : first ≤ last)
    (found : text[last]? = some character) :
    between text first (last + 1) = between text first last ++ [character] := by
  obtain ⟨hlast, rfl⟩ := List.getElem?_eq_some_iff.mp found
  have hlength : first ≤ (text.take last).length := by
    rw [List.length_take]
    omega
  rw [between, List.take_succ_eq_append_getElem hlast, List.drop_append_of_le_length hlength,
    between]

end Between

section Lines

variable {text : Text} {extent : Extent}

/-- The line of a position starts where it is looked for. -/
theorem onLine_lineStart {position : Nat} (inside : position ≤ text.length) :
    OnLine text (lineStart text position) position := by
  obtain ⟨above, indent, hsplit, hlength, hindent, hends⟩ := exists_lineStart text position
  rw [← hlength inside]
  have hle : above.length ≤ position := by
    rw [hlength inside]
    exact lineStart_le text position
  refine ⟨hle, ?_, ?_⟩
  · rcases hends with rfl | hends
    · exact .inl rfl
    · right
      have hpos : 0 < above.length := by
        rcases above with _ | ⟨first, above⟩
        · cases hends
        · exact Nat.succ_pos _
      have hplace : text[above.length - 1]? = (text.take position)[above.length - 1]? := by
        rw [List.getElem?_take, if_pos (by omega)]
      rw [hplace, hsplit, List.getElem?_append_left (by omega), ← List.getLast?_eq_getElem?, hends]
  · rw [between, hsplit, List.drop_left]
    exact hindent

/-- The rest of a line on which only blanks and a line comment are left. -/
theorem exists_blanks_comment {text : Text} (ends : isLineEnd text = true) :
    ∃ blanks comment, lineRest text = blanks ++ comment ∧
      (∀ character ∈ blanks, Text.isBlank character = true) ∧
      (comment = [] ∨ ∃ words, comment = '/' :: '/' :: words) := by
  refine ⟨(lineRest text).takeWhile Text.isBlank, Text.trimStart (lineRest text),
    List.takeWhile_append_dropWhile.symm, fun _ member => List.mem_takeWhile_imp member, ?_⟩
  rcases Bool.or_eq_true_iff.mp ends with hnil | hslashes
  · exact .inl (List.isEmpty_iff.mp hnil)
  · obtain ⟨words, hwords⟩ := List.isPrefixOf_iff_prefix.mp hslashes
    exact .inr ⟨words, hwords.symm⟩

theorem between_lineEnd (text : Text) (extent : Extent) :
    between text extent.stop (lineEnd text extent) = lineRest (text.drop extent.stop) := by
  obtain ⟨behind, hsplit, -⟩ := exists_lineRest (text.drop extent.stop)
  have hcount : lineEnd text extent - extent.stop = (lineRest (text.drop extent.stop)).length :=
    Nat.add_sub_cancel_left _ _
  rw [between, List.drop_take, hcount]
  nth_rewrite 2 [hsplit]
  exact List.take_left

/-- The rest of the line is taken with its line break, or up to the end of the text. -/
theorem lineStop_cases (inside : extent.stop ≤ text.length) :
    lineStop text extent = lineEnd text extent + 1 ∧ text[lineEnd text extent]? = some '\n' ∨
      lineStop text extent = lineEnd text extent ∧ lineEnd text extent = text.length := by
  have hle := lineEnd_le inside
  by_cases hbefore : lineEnd text extent < text.length
  · exact .inl ⟨if_pos hbefore, getElem?_lineEnd hbefore⟩
  · exact .inr ⟨if_neg hbefore, by omega⟩

/-- What is taken from behind an extent that is alone on its lines. -/
theorem isTrail_lineStop (inside : extent.stop ≤ text.length)
    (ends : isLineEnd (text.drop extent.stop) = true) :
    IsTrail (between text extent.stop (lineStop text extent)) := by
  obtain ⟨blanks, comment, hsplit, hblanks, hcomment⟩ := exists_blanks_comment ends
  have hshort : '\n' ∉ blanks ++ comment := hsplit ▸ newline_not_mem_lineRest _
  rcases lineStop_cases inside with ⟨hstop, hnewline⟩ | ⟨hstop, -⟩
  · refine ⟨blanks, comment, ['\n'], ?_, hshort, hblanks, hcomment, by simp⟩
    rw [hstop, between_succ (le_lineEnd text extent) hnewline, between_lineEnd, hsplit]
  · refine ⟨blanks, comment, [], ?_, hshort, hblanks, hcomment, by simp⟩
    rw [hstop, between_lineEnd, hsplit, List.append_nil]

theorem IsTrail.newline (trail : IsTrail text) : IsTrail (text ++ ['\n']) := by
  obtain ⟨blanks, comment, breaks, rfl, hshort, hblanks, hcomment, hbreaks⟩ := trail
  refine ⟨blanks, comment, breaks ++ ['\n'], by simp, hshort, hblanks, hcomment, ?_⟩
  exact List.forall_mem_append.mpr ⟨hbreaks, by simp⟩

/-- Only blanks, a line comment and line breaks behind an extent go with it. -/
theorem isTrail_wholeLines (inside : extent.stop ≤ text.length) :
    IsTrail (between text extent.stop (wholeLines text extent).stop) := by
  have htrail (alone : isAlone text extent = true) :=
    isTrail_lineStop inside (Bool.and_eq_true_iff.mp alone).2
  have hwidening := widening text extent
  generalize wholeLines text extent = widened at hwidening ⊢
  cases hwidening with
  | none shared =>
      rw [between_self]
      exact ⟨[], [], [], rfl, by simp, by simp, .inl rfl, by simp⟩
  | lines alone => exact htrail alone
  | below alone blank empty =>
      rw [between_succ (lineStop_bounds inside).1 empty]
      exact (htrail alone).newline
  | above alone blank later filled closes => exact htrail alone

/-- The lines of an extent end with a line break or with the text. -/
theorem lineStop_ends (inside : extent.stop ≤ text.length) :
    lineStop text extent = text.length ∨
      extent.stop < lineStop text extent ∧ text[lineStop text extent - 1]? = some '\n' := by
  have hle := le_lineEnd text extent
  rcases lineStop_cases inside with ⟨hstop, hnewline⟩ | ⟨hstop, hlength⟩
  · rw [hstop]
    exact .inr ⟨by omega, hnewline⟩
  · exact .inl (hstop.trans hlength)

/-- An extent that is alone on its lines is widened to all of them. -/
theorem coversLines_of_isAlone (stands : Stands text extent) (alone : isAlone text extent = true) :
    CoversLines text extent (wholeLines text extent) := by
  have hline := onLine_lineStart stands.start_le
  have hstop := lineStop_ends stands.inside
  have hwidening := widening text extent
  generalize wholeLines text extent = widened at hwidening ⊢
  cases hwidening with
  | none shared =>
      rw [alone] at shared
      cases shared
  | lines alone => exact ⟨⟨_, hline, .inl rfl⟩, hstop⟩
  | below alone blank empty =>
      have hle := (lineStop_bounds stands.inside).1
      exact ⟨⟨_, hline, .inl rfl⟩, .inr ⟨Nat.lt_succ_of_le hle, empty⟩⟩
  | above alone blank later filled closes =>
      exact ⟨⟨_, hline, .inr (Nat.succ_pred_eq_of_ne_zero later)⟩, hstop⟩

/-- An extent is only widened when it is alone on its lines. -/
theorem isAlone_of_wholeLines_ne (widens : wholeLines text extent ≠ extent) :
    isAlone text extent = true := by
  by_contra hshared
  rw [wholeLines_eq, if_neg hshared] at widens
  exact widens rfl

/-- Widening an extent never takes code with it. The widened extent lies in the text
around the given one; in front it adds blanks, and behind it adds blanks, at most one
line comment on the line where the extent ends, and line breaks. If it adds anything,
and always if the extent is alone on its lines, it reaches to the ends of these lines. -/
theorem wholeLines_adds_no_code (stands : Stands text extent) :
    ((wholeLines text extent).start ≤ extent.start ∧
      extent.stop ≤ (wholeLines text extent).stop ∧
      (wholeLines text extent).stop ≤ text.length) ∧
    (∀ character ∈ between text (wholeLines text extent).start extent.start,
      Text.isBlank character = true) ∧
    IsTrail (between text extent.stop (wholeLines text extent).stop) ∧
    (wholeLines text extent ≠ extent → CoversLines text extent (wholeLines text extent)) ∧
    (isAlone text extent = true → CoversLines text extent (wholeLines text extent)) := by
  refine ⟨stands.wholeLines, ?_, isTrail_wholeLines stands.inside, ?_,
    coversLines_of_isAlone stands⟩
  · intro character member
    obtain ⟨place, hbehind, hbefore, hfound⟩ := mem_between member
    exact isBlank_of_wholeLines hbehind hbefore hfound
  · intro hwidens
    exact coversLines_of_isAlone stands (isAlone_of_wholeLines_ne hwidens)

end Lines

/-- An import with a comment behind it, at the end of a group and below a blank line. -/
def lastImportSource : Text :=
  "import (\n\t\"a\"\n\n\t\"b\" // note\n)\n".toList

theorem wholeLines_adds_no_code_lastImportSource :
    Stands lastImportSource ⟨16, 19⟩ ∧
    wholeLines lastImportSource ⟨16, 19⟩ = ⟨14, 28⟩ ∧
    between lastImportSource 14 16 = "\n\t".toList ∧
    between lastImportSource 19 28 = " // note\n".toList ∧
    IsTrail (between lastImportSource 19 28) ∧
    CoversLines lastImportSource ⟨16, 19⟩ ⟨14, 28⟩ := by
  have hwidened : wholeLines lastImportSource ⟨16, 19⟩ = ⟨14, 28⟩ := by decide
  have hopens : lastImportSource[16]? = some '"' := rfl
  have hcloses : lastImportSource[18]? = some '"' := rfl
  have stands : Stands lastImportSource ⟨16, 19⟩ :=
    .of_getElem? (by decide) hopens hcloses ⟨rfl, rfl⟩
  obtain ⟨-, -, htrail, hcovers, -⟩ := wholeLines_adds_no_code stands
  rw [hwidened] at htrail hcovers
  exact ⟨stands, hwidened, by decide, by decide, htrail, hcovers (by decide)⟩

end Deinstrument.Extent
