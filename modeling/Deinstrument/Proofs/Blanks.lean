import Deinstrument.Proofs.Filling
import Deinstrument.Proofs.Steps

/-!
# Blanks between tokens

Between two tokens there are blanks and complete comments, and behind a complete
phrase there is a terminator: a line break, which may end a line comment, or a
semicolon. Reading passes over such texts whatever stands behind them, and what
it passes over is such a text unless it is the end of the source.
-/

namespace Deinstrument.Go

/-- Blanks and complete comments; line breaks are among them if the flag says so.
A line comment comes with the line break behind it. -/
inductive Blanks (breaks : Bool) : Text → Prop
  | nil : Blanks breaks []
  | space {text : Text} (character : Char) (space : isSpace character = true)
      (inline : breaks = true ∨ character ≠ '\n') (later : Blanks breaks text) :
      Blanks breaks (character :: text)
  | line {text : Text} (words : Text) (short : '\n' ∉ words) (several : breaks = true)
      (later : Blanks breaks text) : Blanks breaks ('/' :: '/' :: words ++ '\n' :: text)
  | block {text : Text} (words : Text)
      (closed : Text.find? ['*', '/'] (words ++ ['*', '/']) = some words.length)
      (later : Blanks breaks text) : Blanks breaks ('/' :: '*' :: words ++ ['*', '/'] ++ text)

/-! ## The count of blanks -/

theorem closedLength?_pos {text : Text} {length : Nat}
    (found : Comment.closedLength? text = some length) : 0 < length := by
  unfold Comment.closedLength? at found
  split at found
  · cases found
    simp [Comment.lineLength]
  · obtain ⟨position, -, rfl⟩ := Option.map_eq_some_iff.mp found
    exact Nat.add_pos_right _ (by decide)
  · cases found

/-- A clock that is longer than the text makes no difference. -/
theorem blankLengthFrom_eq {breaks : Bool} {clock text : Text}
    (long : text.length ≤ clock.length) :
    blankLengthFrom breaks clock text = blankLengthFrom breaks text text := by
  have hclocks (first second text : Text) (hfirst : text.length ≤ first.length)
      (hsecond : text.length ≤ second.length) :
      blankLengthFrom breaks first text = blankLengthFrom breaks second text := by
    induction first generalizing second text with
    | nil =>
        cases List.length_eq_zero_iff.mp (Nat.le_zero.mp hfirst)
        cases second with
        | nil => rfl
        | cons tick second => rfl
    | cons tick first ih =>
        cases second with
        | nil =>
            cases List.length_eq_zero_iff.mp (Nat.le_zero.mp hsecond)
            rfl
        | cons tock second =>
            simp only [List.length_cons] at hfirst hsecond
            simp only [blankLengthFrom]
            cases hcomment : Comment.closedLength? text with
            | some length =>
                have hpos := closedLength?_pos hcomment
                have hdrop : (text.drop length).length ≤ text.length - 1 := by
                  rw [List.length_drop]
                  omega
                simp only
                rw [ih second (text.drop length) (by omega) (by omega)]
            | none =>
                cases text with
                | nil => rfl
                | cons character rest =>
                    simp only [List.length_cons] at hfirst hsecond
                    simp only
                    rw [ih second rest (by omega) (by omega)]
  exact hclocks clock text text long (Nat.le_refl _)

/-- The length of the blanks in front of a text, with or without line breaks. -/
def blanksOf (breaks : Bool) (text : Text) : Nat :=
  blankLengthFrom breaks text text

theorem blanksOf_comment (breaks : Bool) {text : Text} {length : Nat}
    (found : Comment.closedLength? text = some length) :
    blanksOf breaks text = length + blanksOf breaks (text.drop length) := by
  cases text with
  | nil => cases found
  | cons first rest =>
      have hpos := closedLength?_pos found
      rw [blanksOf, blankLengthFrom]
      simp only [found]
      rw [blankLengthFrom_eq, blanksOf]
      rw [List.length_drop, List.length_cons]
      omega

theorem blanksOf_cons (breaks : Bool) {first : Char} {rest : Text}
    (none : Comment.closedLength? (first :: rest) = none) :
    blanksOf breaks (first :: rest) =
      if isSpace first && (breaks || first != '\n') then 1 + blanksOf breaks rest else 0 := by
  rw [blanksOf, blankLengthFrom]
  simp only [none]
  rfl

theorem closedLength?_eq_none {first : Char} (solid : first ≠ '/') (rest : Text) :
    Comment.closedLength? (first :: rest) = none := by
  unfold Comment.closedLength?
  split
  · rename_i heq
    cases heq
    exact absurd rfl solid
  · rename_i heq
    cases heq
    exact absurd rfl solid
  · rfl

theorem isSpace_ne_slash {character : Char} (space : isSpace character = true) :
    character ≠ '/' := by
  rintro rfl
  cases space

theorem isBlank_of_isSpace {character : Char} (space : isSpace character = true) :
    Text.isBlank character = true := by
  simp only [isSpace, Bool.or_eq_true, beq_iff_eq] at space
  rcases space with ((((rfl | rfl) | rfl) | rfl) | rfl) | rfl <;> decide

/-- The line comment at the front of a text. -/
theorem closedLength?_line {words : Text} (short : '\n' ∉ words) {text : Text}
    (ends : text = [] ∨ ∃ rest, text = '\n' :: rest) :
    Comment.closedLength? ('/' :: '/' :: words ++ text) = some (words.length + 2) := by
  have hwords : ∀ character ∈ '/' :: '/' :: words, (character != '\n') = true := by
    simp only [List.forall_mem_cons]
    refine ⟨by decide, by decide, fun character member => ?_⟩
    rw [bne_iff_ne]
    exact ne_of_mem_of_not_mem member short
  have hend : text.takeWhile (· != '\n') = [] := by
    rcases ends with rfl | ⟨rest, rfl⟩ <;> simp
  have hline : Comment.lineLength ('/' :: '/' :: words ++ text) = words.length + 2 := by
    rw [Comment.lineLength, List.takeWhile_append_of_pos hwords, hend]
    simp
  exact congrArg some hline

theorem closedLength?_block {words : Text}
    (closed : Text.find? ['*', '/'] (words ++ ['*', '/']) = some words.length) (text : Text) :
    Comment.closedLength? ('/' :: '*' :: words ++ ['*', '/'] ++ text) =
      some (words.length + 4) := by
  have hfound := Comment.find?_append closed text
  simp only [List.cons_append, Comment.closedLength?, hfound, Option.map_some]

namespace Blanks

variable {breaks : Bool} {text more : Text}

theorem append (blanks : Blanks breaks text) (others : Blanks breaks more) :
    Blanks breaks (text ++ more) := by
  induction blanks with
  | nil => exact others
  | space character space inline later ih => exact .space character space inline ih
  | line words short several later ih =>
      have := Blanks.line words short several ih
      simpa using this
  | block words closed later ih =>
      have := Blanks.block words closed ih
      simpa using this

theorem of_inline (blanks : Blanks false text) : Blanks true text := by
  induction blanks with
  | nil => exact .nil
  | space character space inline later ih => exact .space character space (.inl rfl) ih
  | line words short several later ih => cases several
  | block words closed later ih => exact .block words closed ih

/-- Blanks are counted whatever stands behind them. -/
theorem blanksOf_append (blanks : Blanks breaks text) (more : Text) :
    blanksOf breaks (text ++ more) = text.length + blanksOf breaks more := by
  induction blanks with
  | nil => simp
  | @space text character space inline later ih =>
      have hcounts : (isSpace character && (breaks || character != '\n')) = true := by
        simpa [space] using inline
      rw [List.cons_append, blanksOf_cons _ (closedLength?_eq_none (isSpace_ne_slash space) _),
        if_pos hcounts, ih, List.length_cons]
      omega
  | @line text words short several later ih =>
      have hbreak : blanksOf breaks ('\n' :: (text ++ more)) =
          1 + blanksOf breaks (text ++ more) := by
        rw [blanksOf_cons _ (closedLength?_eq_none (by decide) _), several]
        rfl
      have hcomment := closedLength?_line short (.inr ⟨text ++ more, rfl⟩)
      have hdrop : ('/' :: '/' :: words ++ '\n' :: (text ++ more)).drop (words.length + 2) =
          '\n' :: (text ++ more) :=
        List.drop_left' rfl
      have hassoc : '/' :: '/' :: words ++ '\n' :: text ++ more =
          '/' :: '/' :: words ++ '\n' :: (text ++ more) := by simp
      rw [hassoc, blanksOf_comment _ hcomment, hdrop, hbreak, ih]
      simp
      omega
  | @block text words closed later ih =>
      have hdrop : ('/' :: '*' :: words ++ ['*', '/'] ++ (text ++ more)).drop (words.length + 4) =
          text ++ more :=
        List.drop_left' (by simp)
      rw [List.append_assoc, blanksOf_comment _ (closedLength?_block closed _), hdrop, ih]
      simp
      omega

end Blanks

/-! ## What is counted -/

/-- A text around the first place at which a pattern stands in it. -/
theorem exists_of_find? {pattern text : Text} {position : Nat}
    (found : Text.find? pattern text = some position) :
    ∃ front back, text = front ++ pattern ++ back ∧ front.length = position ∧
      Text.find? pattern (front ++ pattern) = some position := by
  induction text generalizing position with
  | nil =>
      simp only [Text.find?] at found
      split at found <;> cases found
      rename_i hempty
      cases List.isEmpty_iff.mp hempty
      exact ⟨[], [], rfl, rfl, rfl⟩
  | cons first rest ih =>
      simp only [Text.find?] at found
      split at found
      · rename_i hstarts
        cases found
        obtain ⟨back, hback⟩ := List.isPrefixOf_iff_prefix.mp hstarts
        refine ⟨[], back, hback.symm, rfl, ?_⟩
        cases pattern <;> simp [Text.find?]
      · rename_i hstarts
        obtain ⟨later, hlater, rfl⟩ := Option.map_eq_some_iff.mp found
        obtain ⟨front, back, rfl, rfl, hfront⟩ := ih hlater
        refine ⟨first :: front, back, rfl, rfl, ?_⟩
        have hnone : ¬ pattern.isPrefixOf (first :: (front ++ pattern)) = true := by
          intro hshorter
          refine hstarts (List.isPrefixOf_iff_prefix.mpr ?_)
          exact (List.isPrefixOf_iff_prefix.mp hshorter).trans
            (List.prefix_append (first :: (front ++ pattern)) back)
        rw [List.cons_append, Text.find?, if_neg hnone, hfront, Option.map_some]

/-- The complete comment at the front of a text. -/
theorem exists_of_closedLength? {text : Text} {length : Nat}
    (found : Comment.closedLength? text = some length) :
    (∃ words rest, text = '/' :: '/' :: words ++ rest ∧ '\n' ∉ words ∧
      (rest = [] ∨ ∃ later, rest = '\n' :: later)) ∨
    ∃ words rest, text = '/' :: '*' :: words ++ ['*', '/'] ++ rest ∧
      Text.find? ['*', '/'] (words ++ ['*', '/']) = some words.length := by
  unfold Comment.closedLength? at found
  split at found
  · rename_i rest
    refine .inl ⟨rest.takeWhile (· != '\n'), rest.dropWhile (· != '\n'), ?_, ?_, ?_⟩
    · rw [List.cons_append, List.cons_append, List.takeWhile_append_dropWhile]
    · intro member
      have := List.mem_takeWhile_imp member
      simp at this
    · cases hrest : rest.dropWhile (· != '\n') with
      | nil => exact .inl rfl
      | cons first later =>
          have hfirst := List.head?_dropWhile_not (· != '\n') rest
          rw [hrest] at hfirst
          simp at hfirst
          exact .inr ⟨later, by rw [hfirst]⟩
  · rename_i rest
    obtain ⟨position, hposition, -⟩ := Option.map_eq_some_iff.mp found
    obtain ⟨words, back, rfl, rfl, hwords⟩ := exists_of_find? hposition
    exact .inr ⟨words, back, by simp, hwords⟩
  · cases found

/-- A text starts with blanks and complete comments; what is counted are these,
and a line comment behind them that ends the source or the line. -/
def Counted (breaks : Bool) (text : Text) : Prop :=
  ∃ blanks rest, text = blanks ++ rest ∧ Blanks breaks blanks ∧
    (rest = text.drop (blanksOf breaks text) ∨
      ∃ words, '\n' ∉ words ∧ rest = '/' :: '/' :: words ++ text.drop (blanksOf breaks text) ∧
        (text.drop (blanksOf breaks text) = [] ∨
          breaks = false ∧ ∃ later, text.drop (blanksOf breaks text) = '\n' :: later))

/-- What is passed over first joins what is passed over in the rest. -/
theorem Blanks.counted {breaks : Bool} {blanks text : Text} (passed : Blanks breaks blanks)
    (counted : Counted breaks text) : Counted breaks (blanks ++ text) := by
  have hdrop : (blanks ++ text).drop (blanksOf breaks (blanks ++ text)) =
      text.drop (blanksOf breaks text) := by
    rw [passed.blanksOf_append, List.drop_append]
    simp
  obtain ⟨more, rest, rfl, hmore, hends⟩ := counted
  rw [← hdrop] at hends
  exact ⟨blanks ++ more, rest, by simp, passed.append hmore, hends⟩

theorem counted (breaks : Bool) (text : Text) : Counted breaks text := by
  induction hlength : text.length using Nat.strongRecOn generalizing text with
  | ind size ih =>
      subst hlength
      cases found : Comment.closedLength? text with
      | some length =>
          rcases exists_of_closedLength? found with
            ⟨words, rest, rfl, hshort, hends⟩ | ⟨words, rest, rfl, hclosed⟩
          · have hlength : length = words.length + 2 :=
              Option.some.inj (found.symm.trans (closedLength?_line hshort hends))
            have hdrop : ('/' :: '/' :: words ++ rest).drop (words.length + 2) = rest :=
              List.drop_left' rfl
            have hcount := blanksOf_comment breaks found
            rw [hlength, hdrop] at hcount
            rcases hends with rfl | ⟨later, rfl⟩
            · -- The comment ends the source.
              refine ⟨[], _, rfl, .nil, .inr ⟨words, hshort, ?_⟩⟩
              rw [hcount]
              simp [blanksOf, blankLengthFrom]
            · cases breaks with
              | false =>
                  have hzero : blanksOf false ('\n' :: later) = 0 := by
                    rw [blanksOf_cons _ (closedLength?_eq_none (by decide) _)]
                    rfl
                  rw [hzero] at hcount
                  refine ⟨[], _, rfl, .nil, .inr ⟨words, hshort, ?_⟩⟩
                  rw [hcount, Nat.add_zero, hdrop]
                  exact ⟨rfl, .inr ⟨rfl, later, rfl⟩⟩
              | true =>
                  have hline := Blanks.line words hshort rfl .nil
                  have := hline.counted (ih later.length (by simp; omega) later rfl)
                  simpa using this
          · have hblock : Blanks breaks _ := .block words hclosed .nil
            have := hblock.counted (ih rest.length (by simp; omega) rest rfl)
            simpa using this
      | none =>
          cases text with
          | nil => exact ⟨[], [], rfl, .nil, .inl rfl⟩
          | cons character rest =>
              have hcount := blanksOf_cons breaks found
              split at hcount
              · rename_i hspace
                obtain ⟨hspace, hinline⟩ := Bool.and_eq_true_iff.mp hspace
                have hone := Blanks.space character hspace (by simpa using hinline) .nil
                exact hone.counted (ih rest.length (by simp) rest rfl)
              · refine ⟨[], _, rfl, .nil, .inl ?_⟩
                rw [hcount, List.drop_zero]

/-! ## The text behind blanks -/

/-- A text without the blanks and comments in front of it. -/
def afterBlanks (text : Text) : Text :=
  text.drop (blankLength text)

theorem Blanks.afterBlanks_append {blanks : Text} (passed : Blanks true blanks) (text : Text) :
    afterBlanks (blanks ++ text) = afterBlanks text := by
  have hcount : blankLength (blanks ++ text) = blanks.length + blankLength text :=
    passed.blanksOf_append text
  rw [afterBlanks, hcount, List.drop_append]
  simp [afterBlanks]

/-- What stands in front of a token is blanks and complete comments. -/
theorem exists_afterBlanks {text : Text} (goes : afterBlanks text ≠ []) :
    ∃ blanks, Blanks true blanks ∧ text = blanks ++ afterBlanks text := by
  obtain ⟨blanks, rest, htext, hblanks, rfl | ⟨words, -, -, hends | ⟨hfalse, -⟩⟩⟩ :=
    counted true text
  · exact ⟨blanks, hblanks, htext⟩
  · exact absurd hends goes
  · cases hfalse

@[simp]
theorem afterBlanks_nil : afterBlanks [] = [] := rfl

theorem afterBlanks_afterBlanks (text : Text) :
    afterBlanks (afterBlanks text) = afterBlanks text := by
  by_cases hgoes : afterBlanks text = []
  · rw [hgoes, afterBlanks_nil]
  · obtain ⟨blanks, hblanks, htext⟩ := exists_afterBlanks hgoes
    have hpassed := hblanks.afterBlanks_append (afterBlanks text)
    rw [← htext] at hpassed
    exact hpassed.symm

/-- Whether a character starts a token wherever it stands between tokens. -/
def isSolid (character : Char) : Bool :=
  !isSpace character && character != '/'

theorem afterBlanks_solid {first : Char} (solid : isSolid first = true) (rest : Text) :
    afterBlanks (first :: rest) = first :: rest := by
  obtain ⟨hspace, hslash⟩ := Bool.and_eq_true_iff.mp solid
  have hcount : blankLength (first :: rest) = 0 := by
    refine (blanksOf_cons true (closedLength?_eq_none (bne_iff_ne.mp hslash) rest)).trans ?_
    simpa using hspace
  rw [afterBlanks, hcount, List.drop_zero]

/-! ## Terminators -/

/-- The text of a terminator with the blanks and comments in front of it; the
flag says whether it is a semicolon. -/
inductive Terminator : Bool → Text → Prop
  | semicolon {blanks : Text} (inline : Blanks false blanks) : Terminator true (blanks ++ [';'])
  | newline {blanks : Text} (inline : Blanks false blanks) : Terminator false (blanks ++ ['\n'])
  | comment {blanks : Text} (inline : Blanks false blanks) (words : Text)
      (short : '\n' ∉ words) : Terminator false (blanks ++ '/' :: '/' :: words ++ ['\n'])

theorem after_terminator (context : Context) (text : Text) :
    after context .terminator text =
      match text.drop (inlineLength text) with
      | [] => some []
      | next :: rest => if next == '\n' || next == ';' then some rest else none := by
  rw [after_atom rfl, Form.length?]
  cases hdrop : text.drop (inlineLength text) with
  | nil => simp [hdrop]
  | cons next rest =>
      have hrest : text.drop (inlineLength text + 1) = rest := by
        rw [← List.drop_drop, hdrop, List.drop_one, List.tail_cons]
      simp only
      split
      · rw [Option.map_some, hrest]
      · rfl

theorem Blanks.drop_inlineLength {blanks : Text} (inline : Blanks false blanks) (text : Text) :
    (blanks ++ text).drop (inlineLength (blanks ++ text)) = text.drop (inlineLength text) := by
  have hcount : inlineLength (blanks ++ text) = blanks.length + inlineLength text :=
    inline.blanksOf_append text
  rw [hcount, List.drop_append]
  simp

theorem drop_inlineLength_of_ne {first : Char} (stops : isSpace first = false ∨ first = '\n')
    (slash : first ≠ '/') (rest : Text) :
    (first :: rest).drop (inlineLength (first :: rest)) = first :: rest := by
  have hcount : inlineLength (first :: rest) = 0 := by
    refine (blanksOf_cons false (closedLength?_eq_none slash rest)).trans ?_
    rcases stops with hspace | rfl
    · simp [hspace]
    · rfl
  rw [hcount, List.drop_zero]

theorem drop_inlineLength_line {words : Text} (short : '\n' ∉ words) {text : Text}
    (ends : text = [] ∨ ∃ rest, text = '\n' :: rest) :
    ('/' :: '/' :: words ++ text).drop (inlineLength ('/' :: '/' :: words ++ text)) = text := by
  have hdrop : ('/' :: '/' :: words ++ text).drop (words.length + 2) = text :=
    List.drop_left' rfl
  have hzero : blanksOf false text = 0 := by
    rcases ends with rfl | ⟨rest, rfl⟩
    · rfl
    · rw [blanksOf_cons _ (closedLength?_eq_none (by decide) _)]
      rfl
  have hcount : inlineLength ('/' :: '/' :: words ++ text) = words.length + 2 := by
    refine (blanksOf_comment false (closedLength?_line short ends)).trans ?_
    rw [hdrop, hzero]
  rw [hcount, hdrop]

namespace Terminator

variable {semicolon : Bool} {text : Text}

/-- A terminator is read as such whatever stands behind it. -/
theorem after_append (terminator : Terminator semicolon text) (context : Context) (more : Text) :
    after context .terminator (text ++ more) = some more := by
  rw [after_terminator]
  cases terminator with
  | semicolon inline =>
      rw [List.append_assoc, inline.drop_inlineLength, List.singleton_append,
        drop_inlineLength_of_ne (.inl (by decide)) (by decide)]
      rfl
  | newline inline =>
      rw [List.append_assoc, inline.drop_inlineLength, List.singleton_append,
        drop_inlineLength_of_ne (.inr rfl) (by decide)]
      rfl
  | comment inline words short =>
      rw [List.append_assoc, List.append_assoc, inline.drop_inlineLength, List.singleton_append,
        drop_inlineLength_line short (.inr ⟨more, rfl⟩)]
      rfl

/-- A terminator that is no semicolon is blanks and complete comments. -/
theorem blanks (terminator : Terminator false text) : Blanks true text := by
  cases terminator with
  | newline inline => exact inline.of_inline.append (.space '\n' rfl (.inl rfl) .nil)
  | comment inline words short =>
      rw [List.append_assoc]
      exact inline.of_inline.append (.line words short rfl .nil)

end Terminator

/-- Blanks in front of a terminator belong to it. -/
theorem Terminator.append {semicolon : Bool} {text blanks : Text} (inline : Blanks false blanks)
    (terminator : Terminator semicolon text) : Terminator semicolon (blanks ++ text) := by
  cases terminator with
  | semicolon later =>
      rw [← List.append_assoc]
      exact .semicolon (inline.append later)
  | newline later =>
      rw [← List.append_assoc]
      exact .newline (inline.append later)
  | comment later words short =>
      rw [← List.append_assoc, ← List.append_assoc]
      exact .comment (inline.append later) words short

/-- Blanks are on one line, or there is a terminator at their front. -/
theorem Blanks.inline_or_break {blanks : Text} (passed : Blanks true blanks) :
    Blanks false blanks ∨
      ∃ ending rest, blanks = ending ++ rest ∧ Terminator false ending ∧ Blanks true rest := by
  -- Blanks in front that are on one line do not decide.
  have hfront {front back : Text} (inline : Blanks false front)
      (behind : Blanks false back ∨
        ∃ ending rest, back = ending ++ rest ∧ Terminator false ending ∧ Blanks true rest) :
      Blanks false (front ++ back) ∨
        ∃ ending rest, front ++ back = ending ++ rest ∧ Terminator false ending ∧
          Blanks true rest := by
    rcases behind with hback | ⟨ending, rest, rfl, terminator, later⟩
    · exact .inl (inline.append hback)
    · exact .inr ⟨front ++ ending, rest, (List.append_assoc ..).symm, terminator.append inline,
        later⟩
  induction passed with
  | nil => exact .inl .nil
  | @space text character space inline later ih =>
      by_cases hbreak : character = '\n'
      · subst hbreak
        exact .inr ⟨[] ++ ['\n'], text, rfl, .newline .nil, later⟩
      · exact hfront (.space character space (.inr hbreak) .nil) ih
  | @line text words short several later ih =>
      exact .inr ⟨[] ++ '/' :: '/' :: words ++ ['\n'], text, by simp, .comment .nil words short,
        later⟩
  | @block text words closed later ih =>
      have := hfront (.block words closed .nil) ih
      simpa using this

/-- What is read as a terminator is one, or it is the end of the source. -/
theorem exists_terminator {context : Context} {text rest : Text}
    (success : after context .terminator text = some rest) :
    (∃ semicolon front, Terminator semicolon front ∧ text = front ++ rest) ∨
      (rest = [] ∧ text.drop (inlineLength text) = []) := by
  rw [after_terminator] at success
  obtain ⟨blanks, behind, htext, hblanks, hbehind⟩ := counted false text
  have hdrop : text.drop (blanksOf false text) = text.drop (inlineLength text) := rfl
  rw [hdrop] at hbehind
  cases hnext : text.drop (inlineLength text) with
  | nil =>
      rw [hnext] at success
      cases success
      exact .inr ⟨rfl, rfl⟩
  | cons next later =>
      rw [hnext] at success hbehind
      simp only at success
      split at success
      · rename_i hstop
        cases success
        refine .inl ?_
        rcases hbehind with rfl | ⟨words, hshort, rfl, hends⟩
        · rcases Bool.or_eq_true_iff.mp hstop with hstop | hstop
          · cases beq_iff_eq.mp hstop
            exact ⟨false, _, .newline hblanks, by simpa using htext⟩
          · cases beq_iff_eq.mp hstop
            exact ⟨true, _, .semicolon hblanks, by simpa using htext⟩
        · obtain hnil | ⟨-, later', heq⟩ := hends
          · cases hnil
          · cases heq
            exact ⟨false, _, .comment hblanks words hshort, by simpa using htext⟩
      · cases success

/-! ## Cutting at line breaks -/

section Cut

variable {breaks : Bool} {front back : Text}

theorem getLast?_append_of_some {text more : Text} {last : Char}
    (ends : more.getLast? = some last) : (text ++ more).getLast? = some last := by
  rw [List.getLast?_append, ends]
  rfl

theorem eq_nil_or_getLast? {text more : Text} {last : Char}
    (ends : (text ++ more).getLast? = some last) : more = [] ∨ more.getLast? = some last := by
  rcases List.eq_nil_or_concat' more with rfl | ⟨init, final, rfl⟩
  · exact .inl rfl
  · rw [← List.append_assoc, List.getLast?_concat] at ends
    rw [List.getLast?_concat]
    exact .inr ends

/-- The place at which blanks are cut is outside of comments, or there is the end
of a comment behind it, or the cut is not at a line break. -/
theorem Blanks.cut (blanks : Blanks breaks (front ++ back)) :
    Blanks breaks front ∨ '/' ∈ back ∨ ∃ last, front.getLast? = some last ∧ last ≠ '\n' := by
  generalize hsplit : front ++ back = text at blanks
  -- A cut behind the first piece is a cut of what follows the piece.
  have hbehind {piece rest : Text} (hpiece : Blanks breaks piece)
      (hrest : Blanks breaks rest ∨ '/' ∈ back ∨ ∃ last, rest.getLast? = some last ∧ last ≠ '\n') :
      Blanks breaks (piece ++ rest) ∨ '/' ∈ back ∨
        ∃ last, (piece ++ rest).getLast? = some last ∧ last ≠ '\n' := by
    rcases hrest with hrest | hrest | ⟨last, hlast, hne⟩
    · exact .inl (hpiece.append hrest)
    · exact .inr (.inl hrest)
    · exact .inr (.inr ⟨last, getLast?_append_of_some hlast, hne⟩)
  induction blanks generalizing front with
  | nil =>
      rw [(List.append_eq_nil_iff.mp hsplit).1]
      exact .inl .nil
  | @space text character space inline later ih =>
      rcases List.append_eq_cons_iff.mp hsplit with ⟨rfl, -⟩ | ⟨rest, rfl, hrest⟩
      · exact .inl .nil
      · exact hbehind (.space character space inline .nil) (ih hrest.symm)
  | @line text words short several later ih =>
      have hpiece : Blanks breaks ('/' :: '/' :: words ++ ['\n']) := .line words short several .nil
      have hassoc : front ++ back = ('/' :: '/' :: words ++ ['\n']) ++ text := by
        simpa using hsplit
      rcases List.append_eq_append_iff.mp hassoc with ⟨inside, hinside, -⟩ | ⟨rest, rfl, hrest⟩
      · rcases List.eq_nil_or_concat' inside with rfl | ⟨init, last, rfl⟩
        · rw [List.append_nil] at hinside
          exact .inl (hinside ▸ hpiece)
        · -- The cut is in the comment, which has no line break.
          rw [← List.append_assoc] at hinside
          have hfront := (List.append_inj' hinside rfl).1
          rcases List.eq_nil_or_concat' front with rfl | ⟨start, character, rfl⟩
          · exact .inl .nil
          · refine .inr (.inr ⟨character, by simp, ?_⟩)
            rintro rfl
            have member : '\n' ∈ '/' :: '/' :: words := by
              rw [hfront]
              simp
            simp [short] at member
      · exact hbehind hpiece (ih hrest.symm)
  | @block text words closed later ih =>
      have hpiece : Blanks breaks ('/' :: '*' :: words ++ ['*', '/']) := by
        simpa using Blanks.block words closed .nil
      rcases List.append_eq_append_iff.mp hsplit with ⟨inside, hinside, rfl⟩ | ⟨rest, rfl, hrest⟩
      · rcases List.eq_nil_or_concat' inside with rfl | ⟨init, last, rfl⟩
        · rw [List.append_nil] at hinside
          exact .inl (hinside ▸ hpiece)
        · have hends : ('/' :: '*' :: words ++ ['*']) ++ ['/'] = (front ++ init) ++ [last] := by
            simpa using hinside
          have hlast : ['/'] = [last] := (List.append_inj' hends rfl).2
          refine .inr (.inl ?_)
          simp [← List.singleton_inj.mp hlast]
      · exact hbehind hpiece (ih hrest.symm)

/-- Blanks can be cut off behind a line break. -/
theorem Blanks.trim (blanks : Blanks breaks (front ++ back))
    (blank : ∀ character ∈ back, Text.isBlank character = true)
    (ends : front = [] ∨ front.getLast? = some '\n') : Blanks breaks front := by
  rcases blanks.cut with hfront | hslash | ⟨last, hlast, hne⟩
  · exact hfront
  · cases blank '/' hslash
  · rcases ends with rfl | hends
    · exact .nil
    · cases hlast.symm.trans hends
      exact absurd rfl hne

theorem Blanks.getLast?_ne (blanks : Blanks false front) : front.getLast? ≠ some '\n' := by
  -- The last piece decides.
  have hlast {piece rest : Text} (hpiece : piece.getLast? ≠ some '\n')
      (hrest : rest.getLast? ≠ some '\n') : (piece ++ rest).getLast? ≠ some '\n' := by
    rw [List.getLast?_append]
    cases hends : rest.getLast? with
    | none => exact hpiece
    | some last => rwa [hends] at hrest
  induction blanks with
  | nil => simp
  | @space text character space inline later ih =>
      have hne : [character].getLast? ≠ some '\n' := by
        simpa using inline.resolve_left Bool.false_ne_true
      exact hlast hne ih
  | line words short several later ih => cases several
  | @block text words closed later ih => exact hlast (by simp [List.getLast?_cons]) ih

/-- Behind a terminator, too, blanks can be cut off at a line break. -/
theorem Terminator.trim {semicolon : Bool} {text blanks : Text}
    (terminator : Terminator semicolon text) (passed : Blanks true blanks)
    (split : text ++ blanks = front ++ back)
    (blank : ∀ character ∈ back, Text.isBlank character = true)
    (ends : front.getLast? = some '\n') :
    ∃ rest, front = text ++ rest ∧ Blanks true rest := by
  rcases List.append_eq_append_iff.mp split with ⟨rest, rfl, rfl⟩ | ⟨inside, hinside, rfl⟩
  · refine ⟨rest, rfl, passed.trim blank ?_⟩
    rcases List.eq_nil_or_concat' rest with rfl | ⟨init, last, rfl⟩
    · exact .inl rfl
    · rw [← List.append_assoc] at ends
      simp at ends
      simp [ends]
  · have hblank : ∀ character ∈ inside, Text.isBlank character = true :=
      fun character member => blank character (List.mem_append_left _ member)
    rcases List.eq_nil_or_concat' inside with rfl | ⟨init, last, rfl⟩
    · exact ⟨[], by simpa using hinside.symm, .nil⟩
    · exfalso
      rw [← List.append_assoc] at hinside
      cases terminator with
      | semicolon inline =>
          obtain ⟨-, hlast⟩ := List.append_inj' hinside rfl
          cases hlast
          cases hblank ';' (by simp)
      | newline inline =>
          obtain ⟨hfront, -⟩ := List.append_inj' hinside rfl
          have hinit : ∀ character ∈ init, Text.isBlank character = true :=
            fun character member => hblank character (List.mem_append_left _ member)
          rw [hfront] at inline
          exact (inline.trim hinit (.inr ends)).getLast?_ne ends
      | @comment blanks inline words short =>
          obtain ⟨hfront, -⟩ := List.append_inj' hinside rfl
          have hinit : ∀ character ∈ init, Text.isBlank character = true :=
            fun character member => hblank character (List.mem_append_left _ member)
          rcases List.append_eq_append_iff.mp hfront with ⟨rest, rfl, hrest⟩ | ⟨rest, -, hrest⟩
          · rcases List.eq_nil_or_concat' rest with rfl | ⟨start, character, rfl⟩
            · cases hinit '/' (by rw [List.nil_append] at hrest; simp [← hrest])
            · rw [getLast?_append_of_some (List.getLast?_concat)] at ends
              cases ends
              have member : '\n' ∈ '/' :: '/' :: words := by
                rw [hrest]
                simp
              simp [short] at member
          · cases hinit '/' (by rw [hrest]; simp)

end Cut

/-! ## The rest of a line -/

/-- A text up to its first line break. -/
def lineRest (text : Text) : Text :=
  text.takeWhile (· != '\n')

/-- Whether there is nothing but blanks and a line comment before the first line
break of a text. -/
def isLineEnd (text : Text) : Bool :=
  (Text.trimStart (lineRest text)).isEmpty ||
    Text.startsWith (Text.trimStart (lineRest text)) ['/', '/']

theorem lineRest_cons {first : Char} (inline : first ≠ '\n') (rest : Text) :
    lineRest (first :: rest) = first :: lineRest rest := by
  simp [lineRest, inline]

theorem lineRest_newline (rest : Text) : lineRest ('\n' :: rest) = [] := rfl

theorem isLineEnd_cons {first : Char} (blank : Text.isBlank first = true) (inline : first ≠ '\n')
    (rest : Text) : isLineEnd (first :: rest) = isLineEnd rest := by
  have htrim : Text.trimStart (first :: lineRest rest) = Text.trimStart (lineRest rest) :=
    List.dropWhile_cons_of_pos blank
  rw [isLineEnd, lineRest_cons inline, htrim, isLineEnd]

theorem isLineEnd_solid {first : Char} (blank : Text.isBlank first = false) (slash : first ≠ '/')
    (rest : Text) : isLineEnd (first :: rest) = false := by
  have inline : first ≠ '\n' := by
    rintro rfl
    cases blank
  have htrim : Text.trimStart (first :: lineRest rest) = first :: lineRest rest :=
    List.dropWhile_cons_of_neg (by simp [blank])
  rw [isLineEnd, lineRest_cons inline, htrim]
  simp [Text.startsWith, List.isPrefixOf, slash.symm]

theorem isLineEnd_block (rest : Text) : isLineEnd ('/' :: '*' :: rest) = false := by
  rw [isLineEnd, lineRest_cons (by decide), lineRest_cons (by decide)]
  rfl

theorem lineRest_line {words : Text} (short : '\n' ∉ words) (text : Text) :
    lineRest ('/' :: '/' :: words ++ '\n' :: text) = '/' :: '/' :: words := by
  have hwords : ∀ character ∈ '/' :: '/' :: words, (character != '\n') = true := by
    simp only [List.forall_mem_cons]
    refine ⟨by decide, by decide, fun character member => ?_⟩
    rw [bne_iff_ne]
    exact ne_of_mem_of_not_mem member short
  rw [lineRest, List.takeWhile_append_of_pos hwords]
  simp

/-- Blanks without a line break belong to the rest of the line if that ends
with blanks or a line comment. -/
theorem Blanks.isLineEnd_append {blanks : Text} (inline : Blanks false blanks) {text : Text}
    (ends : isLineEnd (blanks ++ text) = true) :
    isLineEnd text = true ∧ lineRest (blanks ++ text) = blanks ++ lineRest text := by
  induction inline with
  | nil => exact ⟨ends, rfl⟩
  | @space rest character space inline later ih =>
      have hinline : character ≠ '\n' := inline.resolve_left Bool.false_ne_true
      rw [List.cons_append, isLineEnd_cons (isBlank_of_isSpace space) hinline] at ends
      obtain ⟨htext, hrest⟩ := ih ends
      exact ⟨htext, by rw [List.cons_append, lineRest_cons hinline, hrest, List.cons_append]⟩
  | line words short several later ih => cases several
  | block words closed later ih =>
      simp only [List.cons_append, isLineEnd_block] at ends
      cases ends

/-- A terminator at the end of a line is the rest of the line with its break. -/
theorem Terminator.isLineEnd_append {semicolon : Bool} {text : Text}
    (terminator : Terminator semicolon text) {more : Text}
    (ends : isLineEnd (text ++ more) = true) :
    semicolon = false ∧ text = lineRest (text ++ more) ++ ['\n'] := by
  cases terminator with
  | semicolon inline =>
      rw [List.append_assoc] at ends
      have := (inline.isLineEnd_append ends).1
      rw [List.singleton_append, isLineEnd_solid (by decide) (by decide)] at this
      cases this
  | newline inline =>
      rw [List.append_assoc] at ends ⊢
      refine ⟨rfl, ?_⟩
      rw [(inline.isLineEnd_append ends).2, List.singleton_append, lineRest_newline,
        List.append_nil]
  | comment inline words short =>
      have hassoc (blanks : Text) : blanks ++ '/' :: '/' :: words ++ ['\n'] ++ more =
          blanks ++ ('/' :: '/' :: words ++ '\n' :: more) := by simp
      rw [hassoc] at ends ⊢
      exact ⟨rfl, by rw [(inline.isLineEnd_append ends).2, lineRest_line short]⟩

/-- Blanks in front of a token that go on behind the end of the line. -/
theorem Blanks.exists_of_isLineEnd {blanks : Text} (passed : Blanks true blanks) {next : Char}
    (solid : Text.isBlank next = false) (slash : next ≠ '/') {more : Text}
    (ends : isLineEnd (blanks ++ next :: more) = true) :
    ∃ rest, blanks = lineRest (blanks ++ next :: more) ++ '\n' :: rest ∧ Blanks true rest := by
  induction passed with
  | nil =>
      rw [List.nil_append, isLineEnd_solid solid slash] at ends
      cases ends
  | @space text character space inline later ih =>
      by_cases hbreak : character = '\n'
      · subst hbreak
        exact ⟨text, rfl, later⟩
      · rw [List.cons_append, isLineEnd_cons (isBlank_of_isSpace space) hbreak] at ends
        obtain ⟨rest, hrest, hblanks⟩ := ih ends
        refine ⟨rest, ?_, hblanks⟩
        rw [List.cons_append, lineRest_cons hbreak, List.cons_append, ← hrest]
  | @line text words short several later ih =>
      refine ⟨text, ?_, later⟩
      have hassoc : '/' :: '/' :: words ++ '\n' :: text ++ next :: more =
          '/' :: '/' :: words ++ '\n' :: (text ++ next :: more) := by simp
      rw [hassoc, lineRest_line short]
  | block words closed later ih =>
      simp only [List.cons_append, isLineEnd_block] at ends
      cases ends

end Deinstrument.Go
