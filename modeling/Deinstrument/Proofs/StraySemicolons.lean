import Deinstrument.Proofs.PrunedGroups

/-!
# Semicolons that stay behind

When an import goes, a semicolon behind it stays. In a group there is no place for
it. Between the items of a source it ends the item in front of it if that one still
needs an end, and else it is an empty statement, which needs an end of its own.
-/

namespace Deinstrument.Go

open Form
open Extent (around wholeLines)
open Import (extentOf)

/-! ## Sources that are read -/

namespace SourceReads

variable {text : Text}

/-- Blanks in front of a source make no difference. -/
theorem blanks_append_iff {blanks : Text} (passed : Blanks true blanks) (text : Text) :
    SourceReads (blanks ++ text) ↔ SourceReads text := by
  have hskips : Skips (.seq itemForm .terminator) := .seq rfl skips_itemForm
  rw [SourceReads, SourceReads, after_many rfl, after_many rfl, hskips blanks text passed]
  cases after .file (.seq itemForm .terminator) text with
  | none => simp [passed.afterBlanks_append]
  | some rest => exact Iff.rfl

theorem skip {skipped : Text} (reads : SourceReads (skipped ++ text))
    (short : skipped = [] ∨ skipped = ['\n']) : SourceReads text := by
  rcases short with rfl | rfl
  · exact reads
  · exact (blanks_append_iff (.space '\n' rfl (.inl rfl) .nil) text).mp reads

theorem of_blank (blank : afterBlanks text = []) : SourceReads text := by
  refine ⟨text, ?_, blank⟩
  rw [after_many rfl, after_seq rfl]
  cases hitem : after .file itemForm text with
  | none => rfl
  | some rest =>
      obtain ⟨first, later, hfirst, -⟩ := opens_of_item hitem
      cases blank.symm.trans hfirst

end SourceReads

/-- A text that is read to its end behind an item. -/
def ReadsBehind (text : Text) : Prop :=
  ∃ rest, after .file .terminator text = some rest ∧ SourceReads rest

/-- A source that starts with an item is read if what is behind the item is. -/
theorem sourceReads_item_iff {text behind : Text}
    (read : after .file itemForm text = some behind) : SourceReads text ↔ ReadsBehind behind := by
  obtain ⟨first, later, hfirst, -⟩ := opens_of_item read
  rw [SourceReads, ReadsBehind, after_many rfl, after_seq rfl, read, Option.bind_some]
  cases after .file .terminator behind with
  | none => simp [hfirst]
  | some rest => simp [SourceReads]

namespace ReadsBehind

variable {text : Text}

theorem inline_append_iff {blanks : Text} (inline : Blanks false blanks) (text : Text) :
    ReadsBehind (blanks ++ text) ↔ ReadsBehind text := by
  rw [ReadsBehind, ReadsBehind, after_terminator, after_terminator, inline.drop_inlineLength]

theorem terminator_append_iff {semicolon : Bool} {ending : Text}
    (terminator : Terminator semicolon ending) (text : Text) :
    ReadsBehind (ending ++ text) ↔ SourceReads text := by
  rw [ReadsBehind, terminator.after_append]
  simp

/-- Where a line ends, it makes no difference whether an item still needs its end. -/
theorem break_append_iff {ending : Text} (terminator : Terminator false ending) (text : Text) :
    ReadsBehind (ending ++ text) ↔ SourceReads (ending ++ text) := by
  rw [terminator_append_iff terminator, SourceReads.blanks_append_iff terminator.blanks]

theorem of_final (ends : text.drop (inlineLength text) = []) : ReadsBehind text := by
  refine ⟨[], ?_, .of_blank rfl⟩
  rw [after_terminator, ends]

theorem of_blank (blank : afterBlanks text = []) : ReadsBehind text := by
  obtain ⟨blanks, rest, rfl, hblanks, hrest⟩ := counted true text
  have hdrop : (blanks ++ rest).drop (blanksOf true (blanks ++ rest)) = [] := blank
  rcases hblanks.inline_or_break with inline | ⟨ending, more, rfl, terminator, -⟩
  · rw [hdrop] at hrest
    refine (inline_append_iff inline rest).mpr (of_final ?_)
    rcases hrest with rfl | ⟨words, hshort, rfl, -⟩
    · rfl
    · exact drop_inlineLength_line hshort (.inl rfl)
  · rw [List.append_assoc] at blank ⊢
    exact (break_append_iff terminator _).mpr (.of_blank blank)

/-- Nothing but a terminator ends an item. -/
theorem not_mark {first : Char} (mark : isMark first = true) (other : first ≠ ';') (rest : Text) :
    ¬ ReadsBehind (first :: rest) := by
  obtain ⟨hsolid, hblank⟩ := Bool.and_eq_true_iff.mp mark
  obtain ⟨hspace, hslash⟩ := Bool.and_eq_true_iff.mp hsolid
  have hbreak : first ≠ '\n' := by
    rintro rfl
    cases hblank
  rintro ⟨behind, hbehind, -⟩
  rw [after_terminator, drop_inlineLength_of_ne (.inl (by simpa using hspace))
    (bne_iff_ne.mp hslash)] at hbehind
  simp [hbreak, other] at hbehind

end ReadsBehind

/-! ## Empty statements -/

/-- Whether a form starts with a word in every case. -/
def Form.isWorded : Form → Bool
  | keyword _ => true
  | leaf _ (.exactly _) => true
  | seq skip second => second.isWorded
  | seq first _ => first.isWorded
  | alt first second => first.isWorded && second.isWorded
  | frame inner => inner.isWorded
  | _ => false

/-- What starts with a word is not read where none starts. -/
theorem after_none_of_isWorded {first : Char} (mark : isMark first = true)
    (starts : Text.isIdentifierStart first = false) {shape : Form} (worded : shape.isWorded = true)
    (fits : shape.fits = true) (rest : Text) : after .file shape (first :: rest) = none := by
  fun_induction Form.isWorded shape with
  | case1 word =>
      rw [after_atom rfl]
      simp [Form.length?, Lexeme.length?, Measure.word, starts]
  | case2 kind word =>
      rw [after_atom rfl]
      simp [Form.length?, Lexeme.length?, Measure.word, starts]
  | case3 second ih =>
      rw [after_skip_seq fits, afterBlanks_mark mark]
      simp only [Form.fits, Bool.and_eq_true] at fits
      exact ih worded fits.1.2
  | case4 first second other ih =>
      rw [after_seq fits]
      simp only [Form.fits, Bool.and_eq_true] at fits
      rw [ih worded fits.1.1, Option.bind_none]
  | case5 first second ih ihOther =>
      rw [after_alt fits]
      obtain ⟨hfirst, hsecond⟩ := Bool.and_eq_true_iff.mp fits
      obtain ⟨hworded, hother⟩ := Bool.and_eq_true_iff.mp worded
      rw [ih hworded hfirst, ihOther hother hsecond, Option.none_or]
  | case6 inner ih =>
      have hinner : inner.fits = true := fits
      rw [after_frame hinner]
      exact ih worded hinner
  | case7 => cases worded

/-- A semicolon where an item may start is an empty statement. -/
theorem after_itemForm_semicolon (rest : Text) :
    after .file itemForm (';' :: rest) = some rest := by
  have hworded {shape : Form} (worded : shape.isWorded = true) (fits : shape.fits = true) :
      after .file shape (';' :: rest) = none :=
    after_none_of_isWorded rfl rfl worded fits rest
  have hskip {shape other : Form} (none : after .file shape (';' :: rest) = none)
      (fits : (Form.alt shape other).fits = true) :
      after .file (.alt shape other) (';' :: rest) = after .file other (';' :: rest) := by
    rw [after_alt fits, none, Option.none_or]
  have htop : after .file (.phrase .topLevel) (';' :: rest) = none := by
    rw [after_phrase]
    exact hworded rfl rfl
  have hif : after .file (.phrase .ifStatement) (';' :: rest) = none := by
    rw [after_phrase]
    exact hworded rfl rfl
  have hblock : after .file (.phrase .block) (';' :: rest) = none := by
    rw [after_phrase]
    change after .file (node .block (.seq (sym "\x7b") _)) _ = none
    rw [after_node rfl, after_seq rfl, after_sym, afterBlanks_mark rfl, afterBlanks_mark rfl]
    rfl
  have hstatement : after .file (.phrase .statement) (';' :: rest) = some rest := by
    rw [after_phrase]
    change after .file statement _ = _
    -- The statements in front of the empty one start with words, but for blocks.
    iterate 4 refine (hskip (hworded rfl rfl) rfl).trans ?_
    refine (hskip hif rfl).trans ?_
    iterate 8 refine (hskip (hworded rfl rfl) rfl).trans ?_
    refine (hskip hblock rfl).trans ?_
    change after .file (.alt (node .emptyStatement (sym ";")) _) _ = _
    rw [after_alt rfl, after_node rfl, after_sym, afterBlanks_mark rfl, afterBlanks_mark rfl]
    rfl
  rw [itemForm, after_alt rfl, htop, Option.none_or, after_seq rfl, after_notAhead rfl,
    hworded rfl rfl]
  exact hstatement

/-- Behind an empty statement a source goes on as behind any item. -/
theorem sourceReads_semicolon_iff {blanks : Text} (inline : Blanks false blanks) (text : Text) :
    SourceReads (blanks ++ [';'] ++ text) ↔ ReadsBehind text := by
  rw [List.append_assoc, SourceReads.blanks_append_iff inline.of_inline]
  exact sourceReads_item_iff (after_itemForm_semicolon text)

/-! ## What follows on a line -/

/-- Whether something other than blanks and comments follows on a line. -/
def goesOn (text : Text) : Bool :=
  (text.drop (inlineLength text)).head?.any (· != '\n')

theorem goesOn_inline {blanks : Text} (inline : Blanks false blanks) (text : Text) :
    goesOn (blanks ++ text) = goesOn text := by
  rw [goesOn, goesOn, inline.drop_inlineLength]

theorem goesOn_mark {first : Char} (mark : isMark first = true) (rest : Text) :
    goesOn (first :: rest) = true := by
  obtain ⟨hsolid, hblank⟩ := Bool.and_eq_true_iff.mp mark
  obtain ⟨hspace, hslash⟩ := Bool.and_eq_true_iff.mp hsolid
  have hbreak : first ≠ '\n' := by
    rintro rfl
    cases hblank
  rw [goesOn, drop_inlineLength_of_ne (.inl (by simpa using hspace)) (bne_iff_ne.mp hslash)]
  simpa using hbreak

theorem goesOn_of_final {text : Text} (ends : text.drop (inlineLength text) = []) :
    goesOn text = false := by
  rw [goesOn, ends]
  rfl

/-- A terminator other than a semicolon stands at the end of its line. -/
theorem Terminator.drop_inlineLength {ending : Text} (terminator : Terminator false ending)
    (text : Text) :
    (ending ++ text).drop (inlineLength (ending ++ text)) = '\n' :: text := by
  cases terminator with
  | newline inline =>
      rw [List.append_assoc, inline.drop_inlineLength]
      exact drop_inlineLength_of_ne (.inr rfl) (by decide) text
  | @comment blanks inline words short =>
      have hassoc : blanks ++ '/' :: '/' :: words ++ ['\n'] ++ text =
          blanks ++ ('/' :: '/' :: words ++ '\n' :: text) := by simp
      rw [hassoc, inline.drop_inlineLength]
      exact drop_inlineLength_line short (.inr ⟨text, rfl⟩)

theorem goesOn_terminator {ending : Text} (terminator : Terminator false ending) (text : Text) :
    goesOn (ending ++ text) = false := by
  rw [goesOn, terminator.drop_inlineLength]
  rfl

/-- Whether a semicolon is the next thing on a line and is not the last one there. -/
def strays (text : Text) : Bool :=
  isSemicolonNext text && goesOn (text.drop (inlineLength text)).tail

theorem strays_semicolon {blanks : Text} (inline : Blanks false blanks) (text : Text) :
    strays (blanks ++ [';'] ++ text) = goesOn text := by
  have hnext := (Terminator.semicolon inline).isSemicolonNext text
  have hdrop : (blanks ++ [';'] ++ text).drop (inlineLength (blanks ++ [';'] ++ text)) =
      ';' :: text := by
    rw [List.append_assoc, inline.drop_inlineLength]
    exact drop_inlineLength_of_ne (.inl (by decide)) (by decide) text
  rw [strays, hnext, hdrop, Bool.true_and, List.tail_cons]

/-- A semicolon that is the next thing on a line has blanks in front. -/
theorem exists_of_isSemicolonNext {text : Text} (next : isSemicolonNext text = true) :
    ∃ blanks rest, Blanks false blanks ∧ text = blanks ++ ';' :: rest := by
  obtain ⟨rest, hdrop⟩ := List.head?_eq_some_iff.mp (beq_iff_eq.mp next)
  obtain ⟨blanks, behind, htext, hblanks, hbehind⟩ := counted false text
  have hcount : text.drop (blanksOf false text) = ';' :: rest := hdrop
  rw [hcount] at hbehind
  rcases hbehind with rfl | ⟨words, -, -, hnil | ⟨-, later, hbreak⟩⟩
  · exact ⟨blanks, rest, hblanks, htext⟩
  · cases hnil
  · cases hbreak

theorem isSemicolonNext_of_goesOn {text : Text} (ends : goesOn text = false) :
    isSemicolonNext text = false := by
  rw [goesOn] at ends
  rw [isSemicolonNext]
  cases hnext : (text.drop (inlineLength text)).head? with
  | none => rfl
  | some next =>
      rw [hnext] at ends
      have hbreak : next = '\n' := by simpa using ends
      rw [hbreak]
      rfl

/-! ## Semicolons in a group -/

/-- What is in front of a semicolon on its line is not widened to its lines. -/
theorem wholeLines_of_isSemicolonNext {source : Text} {extent : Extent}
    (next : isSemicolonNext (source.drop extent.stop) = true) :
    wholeLines source extent = extent := by
  have hshared : ¬ Extent.isAlone source extent = true := by
    intro alone
    obtain ⟨blanks, rest, inline, hrest⟩ := exists_of_isSemicolonNext next
    have hends := (Bool.and_eq_true_iff.mp alone).2
    rw [hrest] at hends
    have hsolid := (inline.isLineEnd_append hends).1
    rw [isLineEnd_solid (by decide) (by decide)] at hsolid
    cases hsolid
  have hwidening := Extent.widening source extent
  generalize wholeLines source extent = widened at hwidening ⊢
  cases hwidening with
  | none shared => rfl
  | lines alone => exact absurd alone hshared
  | below alone blank empty => exact absurd alone hshared
  | above alone blank later filled closes => exact absurd alone hshared

namespace SpecLines

theorem suffix {before rest : List (Spaced Node)} (lines : SpecLines (before ++ rest))
    (goes : rest ≠ []) : SpecLines rest := by
  induction before with
  | nil => exact lines
  | cons item before ih => exact ih (lines.uncons (by simp [goes])).2.2

/-- A semicolon behind a specification is in the text between it and the next one. -/
theorem exists_semicolon {spec : Node} {gap : Text} {later : List (Spaced Node)}
    (lines : SpecLines (⟨spec, gap⟩ :: later)) {more : Text}
    (next : isSemicolonNext (gap ++ Node.textItems later ++ more) = true) :
    ∃ blanks rest, Blanks false blanks ∧ gap ++ Node.textItems later = blanks ++ ';' :: rest := by
  have hseparator {semicolon : Bool} {front behind : Text} (separates : Separator semicolon front)
      (next : isSemicolonNext (front ++ behind) = true) :
      ∃ blanks rest, Blanks false blanks ∧ front = blanks ++ ';' :: rest := by
    cases separates with
    | @mk ending blanks terminator passed =>
        cases terminator with
        | semicolon inline => exact ⟨_, blanks, inline, by simp⟩
        | newline inline =>
            rw [List.append_assoc, isSemicolonNext_of_goesOn
              (goesOn_terminator (.newline inline) _)] at next
            cases next
        | comment inline words short =>
            rw [List.append_assoc, isSemicolonNext_of_goesOn
              (goesOn_terminator (.comment inline words short) _)] at next
            cases next
  cases lines with
  | @last spec gap isSpec closes =>
      have hassoc (text : Text) : gap ++ [')'] ++ Node.textItems [] ++ text =
          gap ++ ')' :: text := by simp [Node.textItems]
      rw [hassoc] at next
      rcases closes with hblanks | ⟨semicolon, separates⟩
      · rcases hblanks.inline_or_break with inline | ⟨ending, rest, rfl, terminator, later⟩
        · rw [isSemicolonNext, inline.drop_inlineLength,
            drop_inlineLength_of_ne (.inl (by decide)) (by decide)] at next
          cases next
        · rw [List.append_assoc,
            isSemicolonNext_of_goesOn (goesOn_terminator terminator _)] at next
          cases next
      · obtain ⟨blanks, rest, inline, rfl⟩ := hseparator separates next
        exact ⟨blanks, rest ++ [')'], inline, by simp [Node.textItems]⟩
  | cons isSpec separates others =>
      rw [List.append_assoc] at next
      obtain ⟨blanks, rest, inline, rfl⟩ := hseparator separates next
      exact ⟨blanks, rest ++ Node.textItems later, inline, by simp⟩

end SpecLines

section Stray

variable {spec : Node} {gap blanks : Text} {before later : List (Spaced Node)}

theorem after_sym_close_none (passed : Blanks true blanks) (rest : Text) :
    after .file (sym ")") (blanks ++ ';' :: rest) = none := by
  rw [after_sym, passed.afterBlanks_append, afterBlanks_mark rfl]
  rfl

/-- Behind a specification, a semicolon that has no specification in front of it is
not passed over. -/
theorem SpecLines.exists_stuck {first : Node} {between : Text}
    (lines : SpecLines (⟨first, between⟩ :: before ++ ⟨spec, gap⟩ :: later))
    (inline : Blanks false blanks) (rest : Text) :
    ∃ stuck, after .file linesEnd
        (between ++ Node.textItems before ++ (blanks ++ ';' :: rest)) = some stuck ∧
      after .file (sym ")") stuck = none := by
  induction before generalizing first between with
  | nil =>
      obtain ⟨-, ⟨semicolon, separates⟩, -⟩ := lines.uncons (by simp)
      obtain ⟨front, behind, rfl, terminator, passed⟩ : ∃ front behind,
          between = front ++ behind ∧ Terminator semicolon front ∧ Blanks true behind := by
        cases separates with
        | mk terminator passed => exact ⟨_, _, rfl, terminator, passed⟩
      have hended : after .file .terminator
          (front ++ behind ++ Node.textItems [] ++ (blanks ++ ';' :: rest)) =
          some (behind ++ blanks ++ ';' :: rest) := by
        have := terminator.after_append .file (behind ++ blanks ++ ';' :: rest)
        simpa [Node.textItems] using this
      have hpassed := passed.append inline.of_inline
      have hnone := after_importSpec_none hpassed (by decide : isBracket ';' = true) rest
      rw [linesEnd, after_seq rfl, after_many rfl, after_seq rfl, hended, Option.bind_some, hnone,
        Option.elim_none, Option.bind_some, after_alt rfl, hended, Option.some_or]
      exact ⟨_, rfl, after_sym_close_none hpassed rest⟩
  | cons item before ih =>
      obtain ⟨next, behind⟩ := item
      obtain ⟨-, ⟨semicolon, separates⟩, others⟩ := lines.uncons (by simp)
      have hassoc : between ++ Node.textItems (⟨next, behind⟩ :: before) ++
          (blanks ++ ';' :: rest) = between ++ next.text ++
            (behind ++ Node.textItems before ++ (blanks ++ ';' :: rest)) := by
        simp [Node.textItems]
      rw [hassoc, after_linesEnd_cons separates others.isSpec_head.text]
      exact ih others

theorem after_groupEnd_none {lead : Text} (passed : Blanks true lead)
    (lines : SpecLines (before ++ ⟨spec, gap⟩ :: later)) (inline : Blanks false blanks)
    (rest : Text) :
    after .file groupEnd (lead ++ Node.textItems before ++ (blanks ++ ';' :: rest)) = none := by
  rw [groupEnd, after_seq rfl, after_within rfl]
  change (after .file _ _).bind _ = _
  rw [after_alt rfl, after_seq rfl]
  cases before with
  | nil =>
      have hpassed := passed.append inline.of_inline
      have hassoc : lead ++ Node.textItems [] ++ (blanks ++ ';' :: rest) =
          lead ++ blanks ++ ';' :: rest := by simp [Node.textItems]
      rw [hassoc, after_importSpec_none hpassed rfl, Option.bind_none, Option.none_or,
        after_atom rfl]
      exact after_sym_close_none hpassed rest
  | cons item before =>
      obtain ⟨first, between⟩ := item
      have hfirst : after .file (.phrase .importSpec)
          (lead ++ first.text ++ (between ++ Node.textItems before ++ (blanks ++ ';' :: rest))) =
          some (between ++ Node.textItems before ++ (blanks ++ ';' :: rest)) := by
        rw [after_phrase]
        exact lines.isSpec_head.text.after_append passed _
      obtain ⟨stuck, hstuck, hclose⟩ := lines.exists_stuck inline rest
      have hassoc : lead ++ Node.textItems (⟨first, between⟩ :: before) ++
          (blanks ++ ';' :: rest) = lead ++ first.text ++
            (between ++ Node.textItems before ++ (blanks ++ ';' :: rest)) := by
        simp [Node.textItems]
      rw [hassoc, hfirst, Option.bind_some, hstuck, Option.some_or, Option.bind_some, hclose]

/-- No item starts with a group in which a semicolon has no specification in front of it. -/
theorem after_itemForm_none {front lead : Text} (hfront : Blanks true front)
    (passed : Blanks true lead) (lines : SpecLines (before ++ ⟨spec, gap⟩ :: later))
    (inline : Blanks false blanks) (rest : Text) :
    after .file itemForm ("import".toList ++
      (front ++ '(' :: (lead ++ Node.textItems before ++ (blanks ++ ';' :: rest)))) = none := by
  have hgroup := after_groupEnd_none passed lines inline rest
  generalize lead ++ Node.textItems before ++ (blanks ++ ';' :: rest) = text at hgroup ⊢
  have hends : EndsWord (front ++ '(' :: text) := by
    refine hfront.endsWord ?_
    rintro first ⟨⟩
    decide
  have hkey (word : String) : after .file (key word) ("import".toList ++ (front ++ '(' :: text)) =
      if "import".toList = word.toList then some (front ++ '(' :: text) else none :=
    after_key_word isWord_import hends word
  have hsolid := isWord_import.afterBlanks_append .nil (front ++ '(' :: text)
  rw [List.nil_append] at hsolid
  have hnode {kind : Kind} {word : String} {inner : Form} (other : "import" ≠ word)
      (fits : (node kind (.seq (key word) inner)).fits = true) :
      after .file (node kind (.seq (key word) inner))
        ("import".toList ++ (front ++ '(' :: text)) = none := by
    rw [after_node fits, hsolid, after_seq (fits_of_node fits), hkey,
      if_neg (fun same => other (String.toList_inj.mp same)), Option.bind_none]
  have hdeclaration : after .file declarationForm
      ("import".toList ++ (front ++ '(' :: text)) = none := by
    rw [declarationForm, after_node rfl, hsolid, after_seq rfl, hkey, if_pos rfl,
      Option.bind_some, after_alt rfl, after_groupForm hfront, hgroup, Option.none_or,
      after_importSpec_none hfront rfl]
  have hfunction : after .file functionForm ("import".toList ++ (front ++ '(' :: text)) = none := by
    rw [functionForm, after_alt rfl]
    change (after .file (node _ (.seq (key "func") _)) _).or
      (after .file (node _ (.seq (key "func") _)) _) = none
    rw [hnode (by decide) rfl, hnode (by decide) rfl, Option.none_or]
  have htop : after .file (.phrase .topLevel)
      ("import".toList ++ (front ++ '(' :: text)) = none := by
    rw [after_phrase]
    change after .file topLevel _ = none
    rw [topLevel_eq, after_alt rfl, after_alt rfl, hdeclaration, hfunction, packageForm,
      hnode (by decide) rfl]
    rfl
  rw [itemForm, after_alt rfl, htop, Option.none_or, after_seq rfl, after_notAhead rfl,
    after_alt rfl, hkey, hkey]
  rfl

end Stray

/-- A declaration that loses one of several specifications and keeps the semicolon
behind it is no item any more. -/
theorem exists_stray_declaration {node : Node} (isDeclaration : IsDeclaration node)
    {front back : Text} {target : Nat × Node}
    (member : target ∈ Import.specNodes front.length node)
    (several : 1 < (Import.specNodes front.length node).length)
    (next : isSemicolonNext ((front ++ node.text ++ back).drop (extentOf target).stop) = true) :
    ∃ kept taken rest words, node.text = kept ++ taken ++ rest ∧ kept = 'i' :: words ∧
      (∀ more, after .file itemForm (kept ++ rest ++ more) = none) ∧
      wholeLines (front ++ node.text ++ back) (extentOf target) =
        ⟨(front ++ kept).length, (front ++ kept ++ taken).length⟩ := by
  obtain ⟨blanks, lead, before, gap, later, passed, passedInside, lines, htext, hposition⟩ :=
    exists_of_mem_specNodes isDeclaration member several
  rw [wholeLines_of_isSemicolonNext next]
  have hextent : extentOf target =
      ⟨(front ++ ("import".toList ++ blanks ++ ['('] ++ lead ++ Node.textItems before)).length,
        (front ++ ("import".toList ++ blanks ++ ['('] ++ lead ++ Node.textItems before) ++
          target.2.text).length⟩ := by
    rw [extentOf, hposition]
    simp only [List.length_append]
  have hsource : front ++ node.text ++ back =
      front ++ ("import".toList ++ blanks ++ ['('] ++ lead ++ Node.textItems before) ++
        target.2.text ++ (gap ++ Node.textItems later ++ back) := by
    simp [htext, Node.textItems]
  rw [hextent, hsource, List.drop_left] at next
  obtain ⟨inline, rest, hinline, hrest⟩ := (lines.suffix (by simp)).exists_semicolon next
  refine ⟨"import".toList ++ blanks ++ ['('] ++ lead ++ Node.textItems before, target.2.text,
    gap ++ Node.textItems later, _, ?_, rfl, fun more => ?_, hextent⟩
  · simp [htext, Node.textItems]
  · have hnone := after_itemForm_none passed passedInside lines hinline (rest ++ more)
    rw [hrest]
    simpa using hnone

end Deinstrument.Go
