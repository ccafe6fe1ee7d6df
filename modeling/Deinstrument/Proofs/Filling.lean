import Deinstrument.Proofs.Printing
import Deinstrument.Proofs.SafeRemoval
import Mathlib.Data.List.TakeWhile

/-!
# Texts between statements

Between the statements of a block there are blanks, semicolons and complete
comments. Reading such a text gives every comment an entry of its own, and
what follows a line comment starts on a new line. So the lines of a block end
where they should when it is read, and removal keeps it that way.
-/

namespace Deinstrument

namespace Comment

/-- Texts of blanks, semicolons and complete comments, with the number of the
semicolons. A line comment is complete if the text goes on in the next line,
and a block comment if it is closed. -/
inductive Filling : Nat → Text → Prop
  | nil : Filling 0 []
  | blank {count : Nat} {text : Text} (character : Char)
      (isBlank : Text.isBlank character = true) (later : Filling count text) :
      Filling count (character :: text)
  | semicolon {count : Nat} {text : Text} (later : Filling count text) :
      Filling (count + 1) (';' :: text)
  | line {count : Nat} {text : Text} (words : Text) (short : '\n' ∉ words)
      (later : Filling count ('\n' :: text)) :
      Filling count (('/' :: '/' :: words) ++ '\n' :: text)
  | block {count : Nat} {text : Text} (words : Text)
      (closed : Text.find? ['*', '/'] (words ++ ['*', '/']) = some words.length)
      (later : Filling count text) : Filling count (('/' :: '*' :: words ++ ['*', '/']) ++ text)

/-! ## One comment -/

/-- A text that is one comment. -/
def IsWhole (comment : Text) : Prop :=
  length? comment = some comment.length

/-- What stands in front of a comment in its entry. -/
def isSeparator (character : Char) : Bool :=
  Text.isBlank character || character == ';'

theorem exists_cons_of_length? {text : Text} {length : Nat} (found : length? text = some length) :
    ∃ second rest, text = '/' :: second :: rest := by
  unfold length? at found
  split at found
  · exact ⟨_, _, rfl⟩
  · exact ⟨_, _, rfl⟩
  · cases found

/-- Blanks and semicolons in front of a comment come to an end with it. -/
theorem takeWhile_separators {blanks comment : Text}
    (separators : ∀ character ∈ blanks, isSeparator character = true) (whole : IsWhole comment) :
    (blanks ++ comment).takeWhile isSeparator = blanks := by
  obtain ⟨second, rest, rfl⟩ := exists_cons_of_length? whole
  rw [List.takeWhile_append_of_pos separators]
  simp [isSeparator, Text.isBlank]

theorem body_append {blanks comment : Text}
    (separators : ∀ character ∈ blanks, isSeparator character = true) (whole : IsWhole comment) :
    body (blanks ++ comment) = comment := by
  obtain ⟨second, rest, rfl⟩ := exists_cons_of_length? whole
  have hbody (text : Text) : body text = text.dropWhile isSeparator := rfl
  rw [hbody, List.dropWhile_append_of_pos separators]
  simp [isSeparator, Text.isBlank]

/-- What follows a comment has no part in whether it starts on a new line. -/
theorem opensLine_append_whole (blanks : Text) {comment : Text} (whole : IsWhole comment)
    (later : Text) :
    Text.opensLine (blanks ++ comment ++ later) = Text.opensLine (blanks ++ comment) := by
  obtain ⟨second, rest, rfl⟩ := exists_cons_of_length? whole
  have hstops (more : Text) : ('/' :: more).takeWhile Text.isBlank = [] := by
    simp [Text.isBlank]
  simp [Text.opensLine, List.takeWhile_append, hstops]

/-! ## The end of a block comment -/

theorem length_le_of_find? {pattern text : Text} {position : Nat}
    (found : Text.find? pattern text = some position) : pattern.length ≤ text.length := by
  induction text generalizing position with
  | nil =>
      simp only [Text.find?] at found
      split at found
      · rename_i hempty
        rw [List.isEmpty_iff.mp hempty]
      · cases found
  | cons first rest ih =>
      simp only [Text.find?] at found
      split at found
      · rename_i hprefix
        exact (List.isPrefixOf_iff_prefix.mp hprefix).length_le
      · obtain ⟨later, hlater, -⟩ := Option.map_eq_some_iff.mp found
        exact Nat.le_succ_of_le (ih hlater)

/-- What is found in a text is found at the same place if the text goes on. -/
theorem find?_append {pattern text : Text} {position : Nat}
    (found : Text.find? pattern text = some position) (more : Text) :
    Text.find? pattern (text ++ more) = some position := by
  induction text generalizing position with
  | nil =>
      simp only [Text.find?] at found
      split at found
      · rename_i hempty
        rw [List.isEmpty_iff.mp hempty]
        cases more <;> exact found
      · cases found
  | cons first rest ih =>
      rw [List.cons_append, Text.find?]
      simp only [Text.find?] at found
      split at found
      · rename_i hprefix
        have hlonger := (List.isPrefixOf_iff_prefix.mp hprefix).trans
          (List.prefix_append (first :: rest) more)
        rw [List.cons_append] at hlonger
        rw [if_pos (List.isPrefixOf_iff_prefix.mpr hlonger)]
        exact found
      · rename_i hprefix
        obtain ⟨later, hlater, hposition⟩ := Option.map_eq_some_iff.mp found
        have hshort : pattern.length ≤ (first :: rest).length :=
          Nat.le_succ_of_le (length_le_of_find? hlater)
        have hnone : ¬ pattern.isPrefixOf (first :: (rest ++ more)) = true := by
          intro hlonger
          refine hprefix (List.isPrefixOf_iff_prefix.mpr ?_)
          exact List.prefix_of_prefix_length_le (List.isPrefixOf_iff_prefix.mp hlonger)
            (List.prefix_append (first :: rest) more) hshort
        rw [if_neg hnone, ih hlater, Option.map_some, hposition]

namespace Filling

/-- The comment at the front of a text, and what follows it. -/
theorem cut {count length : Nat} {text : Text} (filling : Filling count text)
    (found : length? text = some length) :
    ∃ comment later, text = comment ++ later ∧ comment.length = length ∧ IsWhole comment ∧
      Filling count later ∧
      (Text.startsWith comment ['/', '/'] = true → Text.opensLine later = true) := by
  cases filling with
  | nil => cases found
  | blank character isBlank later =>
      obtain ⟨second, rest, heq⟩ := exists_cons_of_length? found
      cases heq
      cases isBlank
  | semicolon later => cases found
  | @line _ text words short later =>
      have hwords : ∀ character ∈ words, (character != '\n') = true := by
        intro character member
        rw [bne_iff_ne]
        exact ne_of_mem_of_not_mem member short
      have hline : lineLength ('/' :: '/' :: words ++ '\n' :: text) = words.length + 2 := by
        simp [lineLength, List.takeWhile_append_of_pos hwords]
      have hwhole : lineLength ('/' :: '/' :: words) = words.length + 2 := by
        simp [lineLength, List.takeWhile_eq_self_iff.mpr hwords]
      refine ⟨'/' :: '/' :: words, '\n' :: text, rfl, ?_, congrArg some hwhole, later, ?_⟩
      · exact Option.some.inj ((congrArg some hline).symm.trans found)
      · intro _
        simp [Text.opensLine, Text.isBlank]
  | @block _ text words closed later =>
      have hfound := find?_append closed text
      have hlength : length? ('/' :: '*' :: words ++ ['*', '/'] ++ text) =
          some (words.length + 4) := by
        simp only [List.cons_append, length?, hfound]
      have hwhole : IsWhole ('/' :: '*' :: words ++ ['*', '/']) := by
        simp [IsWhole, length?, closed]
      refine ⟨'/' :: '*' :: words ++ ['*', '/'], text, rfl, ?_, hwhole, later, ?_⟩
      · rw [hlength, Option.some.injEq] at found
        simp [← found]
      · intro hline
        simp [Text.startsWith, List.isPrefixOf] at hline

/-- Without a comment at the front there is a blank or a semicolon. -/
theorem skip {count : Nat} {first : Char} {text : Text} (filling : Filling count (first :: text))
    (none : length? (first :: text) = none) :
    isSeparator first = true ∧ ∃ count', Filling count' text := by
  generalize htext : first :: text = whole at filling none
  cases filling with
  | nil => cases htext
  | blank character isBlank later =>
      cases htext
      exact ⟨by simp [isSeparator, isBlank], _, later⟩
  | semicolon later =>
      cases htext
      exact ⟨by decide, _, later⟩
  | line words short later => cases none
  | block words closed later =>
      simp only [List.cons_append, length?] at none
      split at none <;> cases none

end Filling

end Comment

open Comment (Filling IsWhole IsSingle isSeparator)
open Fragment (LinesEnd Fresh Replaces)

/-! ## Cutting at comments -/

/-- A comment can be cut off the text behind it. -/
theorem Fragment.Replaces.cutComment {blanks comment later : Text}
    (separators : ∀ character ∈ blanks, isSeparator character = true) (whole : IsWhole comment)
    (line : Text.startsWith comment ['/', '/'] = true → Text.opensLine later = true) :
    Replaces [.comment (blanks ++ comment), .code later] [.code (blanks ++ comment ++ later)] := by
  intro front back ends
  rw [List.append_assoc, List.singleton_append] at ends
  obtain ⟨hfront, hbehind, hjoint⟩ := List.isChain_append.mp ends
  obtain ⟨-, hback⟩ := List.isChain_cons.mp hbehind
  rw [List.append_assoc]
  refine List.IsChain.append hfront
    (List.isChain_cons.mpr ⟨?_, List.isChain_cons.mpr ⟨?_, hback⟩⟩) ?_
  · intro next member hline
    cases member
    rw [isLine, Comment.isLine, Comment.body_append separators whole] at hline
    exact line hline
  · intro next member hline
    cases hline
  · intro last hlast next member hline
    cases member
    have hopens := hjoint last hlast _ rfl hline
    simp only [opens, text] at hopens ⊢
    rwa [Comment.opensLine_append_whole blanks whole] at hopens

namespace Comment.Filling

theorem leadingEntries {count : Nat} {text : Text} (filling : Filling count text) (fuel : Nat)
    {entry : Text} (separators : ∀ character ∈ entry, isSeparator character = true) :
    Replaces ((Comment.leadingEntries fuel entry text).entries.map .comment ++
        [.code (Comment.leadingEntries fuel entry text).space]) [.code (entry ++ text)] ∧
      ∀ single ∈ (Comment.leadingEntries fuel entry text).entries, IsSingle single := by
  induction fuel generalizing count entry text with
  | zero => exact ⟨.refl _, List.forall_mem_nil _⟩
  | succ fuel ih =>
      cases found : length? text with
      | some length =>
          obtain ⟨comment, later, rfl, rfl, whole, hlater, line⟩ := filling.cut found
          obtain ⟨hreplaces, hsingle⟩ := ih hlater (List.forall_mem_nil _)
          simp only [Comment.leadingEntries, found, List.take_left, List.drop_left]
          refine ⟨?_, List.forall_mem_cons.mpr ⟨?_, hsingle⟩⟩
          · have hcut := Replaces.cutComment separators whole line
            rw [List.append_assoc] at hcut
            have hfirst := Replaces.refl [.comment (entry ++ comment)]
            exact (hfirst.append hreplaces).trans hcut
          · rw [IsSingle, body_append separators whole]
            exact whole
      | none =>
          cases text with
          | nil => simp [Comment.leadingEntries, found, Replaces.refl]
          | cons first rest =>
              obtain ⟨hfirst, count', hrest⟩ := filling.skip found
              have hentry : ∀ character ∈ entry ++ [first], isSeparator character = true :=
                List.forall_mem_append.mpr ⟨separators, by simpa using hfirst⟩
              simpa [Comment.leadingEntries, found] using ih hrest hentry

/-- Cutting the text in front of a statement keeps the ends of lines. -/
theorem splitLeading {count : Nat} {text : Text} (filling : Filling count text) :
    Replaces ((Comment.splitLeading text).entries.map .comment ++
        [.code (Comment.splitLeading text).space]) [.code text] ∧
      ∀ single ∈ (Comment.splitLeading text).entries, IsSingle single :=
  filling.leadingEntries (text.length + 1) (List.forall_mem_nil _)

theorem dropInline {count : Nat} {text : Text} (filling : Filling count text) :
    Filling count (text.dropWhile isInline) := by
  induction filling with
  | nil => exact .nil
  | @blank count text character isBlank later ih =>
      rw [List.dropWhile_cons]
      split
      · exact ih
      · exact .blank character isBlank later
  | semicolon later ih => exact .semicolon later
  | line words short later ih => exact .line words short later
  | block words closed later ih => exact .block words closed later

theorem takeTerminator {count : Nat} {text : Text} (filling : Filling count text) :
    ∃ count', Filling count' (Comment.takeTerminator text).2 := by
  have hinline := filling.dropInline
  unfold Comment.takeTerminator
  split
  · rename_i rest hrest
    rw [hrest] at hinline
    exact (hinline.skip rfl).2
  · exact ⟨count, filling⟩

theorem isSeparator_of_isInline {character : Char} (inline : isInline character = true) :
    isSeparator character = true ∧ character ≠ '\n' := by
  simp only [isInline, Bool.or_eq_true, beq_iff_eq] at inline
  rcases inline with (rfl | rfl) | rfl <;> decide

theorem inlineEntries {count : Nat} {text : Text} (filling : Filling count text) (fuel : Nat) :
    Replaces ((Comment.inlineEntries fuel text).1.map .comment ++
        [.code (Comment.inlineEntries fuel text).2]) [.code text] ∧
      (∀ entry ∈ (Comment.inlineEntries fuel text).1, IsSingle entry ∧ Cut.stays entry = false) ∧
      Filling count (Comment.inlineEntries fuel text).2 := by
  induction fuel generalizing count text with
  | zero => exact ⟨.refl _, List.forall_mem_nil _, filling⟩
  | succ fuel ih =>
      cases found : length? (text.dropWhile isInline) with
      | none => simp [Comment.inlineEntries, found, Replaces.refl, filling]
      | some length =>
          obtain ⟨comment, later, hbehind, rfl, whole, hlater, line⟩ := filling.dropInline.cut found
          obtain ⟨hreplaces, hentries, hrest⟩ := ih hlater
          have hjoin := List.takeWhile_append_dropWhile (p := isInline) (l := text)
          have hinline : ∀ character ∈ text.takeWhile isInline, isInline character = true :=
            fun _ member => List.mem_takeWhile_imp member
          have separators : ∀ character ∈ text.takeWhile isInline, isSeparator character = true :=
            fun character member => (isSeparator_of_isInline (hinline character member)).1
          rw [hbehind] at found
          simp only [Comment.inlineEntries, hbehind, found, List.take_left, List.drop_left]
          refine ⟨?_, List.forall_mem_cons.mpr ⟨⟨?_, ?_⟩, hentries⟩, hrest⟩
          · have hcut := Replaces.cutComment separators whole line
            rw [List.append_assoc, ← hbehind, hjoin] at hcut
            have hfirst := Replaces.refl [.comment (text.takeWhile isInline ++ comment)]
            exact (hfirst.append hreplaces).trans hcut
          · rw [IsSingle, body_append separators whole]
            exact whole
          · -- There is no line break among the blanks in front of the comment.
            have hownLine : Cut.isOwnLine (text.takeWhile isInline ++ comment) =
                (text.takeWhile isInline).contains '\n' :=
              congrArg (List.contains · '\n')
                ((take_eq_takeWhile _).trans (takeWhile_separators separators whole))
            have hnone : '\n' ∉ text.takeWhile isInline :=
              fun member => (isSeparator_of_isInline (hinline _ member)).2 rfl
            rw [Cut.stays, hownLine, List.contains_eq_mem, decide_eq_false hnone, Bool.false_and]

/-- Cutting the text behind a statement keeps the ends of lines, and none of the
comments on the line of the statement stays when the statement goes. -/
theorem splitTrailing {count : Nat} {gap : Text} (filling : Filling count gap) :
    LinesEnd ((Comment.splitTrailing gap).entries.map .comment ++
        [.code (Comment.splitTrailing gap).rest]) ∧
      (∀ entry ∈ (Comment.splitTrailing gap).entries, IsSingle entry ∧ Cut.stays entry = false) ∧
      ∃ count', Filling count' (Comment.splitTrailing gap).rest := by
  obtain ⟨count', hbehind⟩ := filling.takeTerminator
  obtain ⟨hreplaces, hentries, hrest⟩ :=
    hbehind.inlineEntries (Comment.takeTerminator gap).2.length
  refine ⟨?_, hentries, count', hrest⟩
  have hends := hreplaces [] [] (List.isChain_singleton _)
  rw [List.nil_append, List.append_nil] at hends
  exact hends

theorem filter_stays_splitTrailing {count : Nat} {gap : Text} (filling : Filling count gap) :
    (Comment.splitTrailing gap).entries.filter Cut.stays = [] := by
  rw [List.filter_eq_nil_iff]
  intro entry member
  rw [(filling.splitTrailing.2.1 entry member).2]
  exact Bool.false_ne_true

end Comment.Filling

/-! ## Blocks that are read -/

/-- Whether what is left behind the comments on the line of a statement starts
with a line break if there are comments in it. -/
def Comment.isOrderly (gap : Text) : Bool :=
  (splitLeading (splitTrailing gap).rest).entries.isEmpty ||
    Text.opensLine (splitTrailing gap).rest

/-- The comments in front of a statement can stand behind a line comment. -/
theorem Comment.Filling.fresh_splitLeading {count : Nat} {text : Text}
    (filling : Filling count text)
    (orderly : ((Comment.splitLeading text).entries.isEmpty || Text.opensLine text) = true) :
    Fresh ((Comment.splitLeading text).entries.map .comment) := by
  rcases Bool.or_eq_true_iff.mp orderly with hempty | hopens
  · rw [List.isEmpty_iff.mp hempty]
    exact Fragment.fresh_nil
  · have hfresh : Fresh [.code text] :=
      Fragment.fresh_iff.mpr ⟨List.isChain_singleton _, by
        simpa [Fragment.opens, Fragment.text] using hopens⟩
    exact (filling.splitLeading.1.fresh hfresh).of_front (List.prefix_append _ _)

theorem Comment.Filling.linesEnd_splitLeading {count : Nat} {text : Text}
    (filling : Filling count text) {front : List Fragment}
    (ends : LinesEnd (front ++ [.code text])) :
    LinesEnd (front ++ ((Comment.splitLeading text).entries.map .comment ++
      [.code (Comment.splitLeading text).space])) := by
  have hcut := filling.splitLeading.1 front [] (by simpa using ends)
  rwa [List.append_nil] at hcut

/-- The closing brace stands behind the last blanks. -/
theorem Fragment.LinesEnd.close {front : List Fragment} {space : Text}
    (ends : LinesEnd (front ++ [.code space])) :
    LinesEnd (front ++ [.closing (space ++ ['}'])]) := by
  have hbrace : Replaces [.closing (space ++ ['}'])] [.code space] :=
    .lower rfl fun hopens => Text.opensLine_append hopens ['}']
  have hclosed := hbrace front [] (by rwa [List.append_nil])
  rwa [List.append_nil] at hclosed

/-- Lines end at a statement if they do in front of it and behind it. -/
theorem Stmt.linesEnd_outline {Action : Type} {action : Action → Text} {stmt : Stmt Action}
    {front back : List Fragment} (above : LinesEnd (front ++ stmt.leading))
    (behind : LinesEnd (stmt.after.map .comment ++ back)) :
    LinesEnd (front ++ (stmt.outline action ++ back)) := by
  have hcode : LinesEnd (front ++ stmt.before.map .comment ++ [.code stmt.space] ++
      [.code (action stmt.action ++ stmt.terminator)]) :=
    .append_code (by simpa [leading] using above) (List.isChain_singleton _)
  simpa [outline, leading] using hcode.append_code behind

namespace Code

/-- The texts between the statements of nodes, from the text in front of the first
one up to the closing brace. -/
def fillersFrom (pending : Text) : List (Spaced Go.Node) → List Text
  | [] => [pending.dropLast]
  | ⟨_, gap⟩ :: rest => pending :: fillersFrom gap rest

/-- The texts between the statements and the braces of a block. -/
def fillers (node : Go.Node) : List Text :=
  fillersFrom node.row.lead.tail node.row.items

theorem headD_mem_fillers (node : Go.Node) : (fillers node).headD [] ∈ fillers node := by
  obtain ⟨kind, line, lead, items⟩ := node
  cases items <;> simp [fillers, fillersFrom, Go.Node.row]

/-- The statements that are read from nodes are where they can be removed from,
and their lines end. -/
theorem lineSafe_statements {count : Nat} {pending : Text} {first : Spaced Go.Node}
    {rest : List (Spaced Go.Node)} (filling : Filling count pending)
    (opens : ((Comment.splitLeading pending).entries.isEmpty || Text.opensLine pending) = true)
    (filled : ∀ gap ∈ fillersFrom first.gap rest, ∃ count, Filling count gap)
    (orderly : ∀ gap ∈ fillersFrom first.gap rest, Comment.isOrderly gap = true)
    {front : List Fragment} (ends : LinesEnd (front ++ [.code pending])) :
    LinesEnd (front ++ ((statements pending (first :: rest)).1.flatMap
        (Stmt.outline Action.print) ++
      [.closing ((statements pending (first :: rest)).2 ++ ['}'])])) ∧
    ∀ stmt ∈ (statements pending (first :: rest)).1, stmt.LineSafe := by
  induction rest generalizing count pending first front with
  | nil =>
      obtain ⟨node, gap⟩ := first
      obtain ⟨⟨_, hfilling⟩, -⟩ := List.forall_mem_cons.mp filled
      obtain ⟨horderly, -⟩ := List.forall_mem_cons.mp orderly
      obtain ⟨htrailing, hentries, _, hrest⟩ := hfilling.splitTrailing
      simp only [statements, List.flatMap_cons, List.flatMap_nil, List.append_nil]
      refine ⟨Stmt.linesEnd_outline (filling.linesEnd_splitLeading ends) ?_,
        List.forall_mem_singleton.mpr ⟨filling.fresh_splitLeading opens, ?_, ?_⟩⟩
      · have hends := hrest.linesEnd_splitLeading htrailing
        rw [← List.append_assoc] at hends
        simpa using hends.close
      · rw [List.filter_append, hfilling.filter_stays_splitTrailing, List.nil_append]
        exact (Replaces.filter_stays _).fresh (hrest.fresh_splitLeading horderly)
      · refine List.forall_mem_append.mpr ⟨filling.splitLeading.2, ?_⟩
        exact List.forall_mem_append.mpr
          ⟨fun entry member => (hentries entry member).1, hrest.splitLeading.2⟩
  | cons second rest ih =>
      obtain ⟨node, gap⟩ := first
      obtain ⟨⟨_, hfilling⟩, hfilled⟩ := List.forall_mem_cons.mp filled
      obtain ⟨horderly, hordered⟩ := List.forall_mem_cons.mp orderly
      obtain ⟨htrailing, hentries, _, hrest⟩ := hfilling.splitTrailing
      have hends : LinesEnd (front ++ (Stmt.outline Action.print
          ⟨(Comment.splitLeading pending).entries, (Comment.splitLeading pending).space,
            action node, (Comment.splitTrailing gap).terminator,
            (Comment.splitTrailing gap).entries, node.line⟩ ++ [.code (Comment.splitTrailing gap).rest])) :=
        Stmt.linesEnd_outline (filling.linesEnd_splitLeading ends) htrailing
      rw [← List.append_assoc] at hends
      obtain ⟨hlines, hlater⟩ := ih hrest horderly hfilled hordered hends
      simp only [statements, List.flatMap_cons]
      refine ⟨by simpa using hlines, List.forall_mem_cons.mpr ⟨?_, hlater⟩⟩
      refine ⟨filling.fresh_splitLeading opens, ?_, ?_⟩
      · rw [hfilling.filter_stays_splitTrailing]
        exact Fragment.fresh_nil
      · exact List.forall_mem_append.mpr
          ⟨filling.splitLeading.2, fun entry member => (hentries entry member).1⟩

/-- The opening brace of a block, with the comments on its line. -/
def braceFragments (opening : Comment.Trailing) : List Fragment :=
  .opening ('{' :: opening.terminator) :: opening.entries.map .comment

theorem text_braceFragments (opening : Comment.Trailing) :
    (braceFragments opening).flatMap Fragment.text =
      '{' :: (opening.terminator ++ opening.entries.flatten) := by
  simp [braceFragments, Fragment.text, List.flatMap_map]

theorem linesEnd_braceFragments {count : Nat} {gap : Text} (filling : Filling count gap) :
    LinesEnd (braceFragments (Comment.splitTrailing gap) ++
      [.code (Comment.splitTrailing gap).rest]) := by
  refine List.isChain_cons.mpr ⟨?_, filling.splitTrailing.1⟩
  intro next _ hline
  cases hline

/-- A block that is read is one from which statements can be removed. -/
theorem lineSafe_block {node : Go.Node} {body : Block Action} (built : block node = some body)
    (filled : ∀ gap ∈ fillers node, ∃ count, Filling count gap)
    (orderly : ∀ gap ∈ fillers node, Comment.isOrderly gap = true) :
    let opening := Comment.splitTrailing ((fillers node).headD [])
    body.opening = '{' :: (opening.terminator ++ opening.entries.flatten) ∧
      body.LineSafe Action.print body.closing (braceFragments opening) [] := by
  intro opening
  obtain ⟨kind, line, lead, items⟩ := node
  unfold block at built
  split at built
  · rename_i inner
    split at built <;> cases built
    obtain ⟨⟨_, hfilling⟩, -⟩ := List.forall_mem_cons.mp filled
    refine ⟨rfl, rfl, ?_, List.forall_mem_nil _, List.forall_mem_nil _⟩
    exact (linesEnd_braceFragments hfilling).close
  · rename_i inner hitems
    split at built <;> cases built
    obtain ⟨first, rest, rfl⟩ := List.exists_cons_of_ne_nil hitems
    obtain ⟨⟨_, hfilling⟩, hfilled⟩ := List.forall_mem_cons.mp filled
    obtain ⟨horderly, hordered⟩ := List.forall_mem_cons.mp orderly
    obtain ⟨_, hrest⟩ := hfilling.splitTrailing.2.2
    obtain ⟨hlines, hstmts⟩ := lineSafe_statements hrest horderly hfilled hordered
      (linesEnd_braceFragments hfilling)
    exact ⟨rfl, rfl, hlines, hstmts, List.forall_mem_nil _⟩
  · cases built

end Code

/-! ## Stripped blocks -/

/-- The opening text of a block stays when regions are removed. -/
theorem Region.opening_remove {Action : Type} (block : Block Action) :
    (remove block).1.opening = block.opening := by
  induction block using remove_induction with
  | nil opening closing => rfl
  | keep opening stmt rest closing result shut ih => exact ih
  | drop opening stmt rest closing result opened ih => exact ih
  | cut opening stmt rest closing inside outside result opened closed ih =>
      refine ih.trans ?_
      cases outside <;> rfl

theorem Span.opening_applyTo {Action : Type} (block : Block Action) (scan : Scan Action) :
    (scan.applyTo block).opening = block.opening := by
  cases scan with
  | done stmts => rfl
  | hollow stmts => rfl
  | found cut =>
      obtain ⟨front, removed, carried, back⟩ := cut
      cases back <;> rfl

/-- The opening text of a block stays when spans are removed. -/
theorem Span.opening_remove {Action : Type} (block : Block Action) :
    (remove block).1.opening = block.opening := by
  induction block using remove_induction with
  | done block stmts tags found => rfl
  | more block result ih => exact ih.trans (opening_applyTo block _)

/-- Behind a line comment among fragments up to a closing brace there is a line
break before anything else. -/
theorem Fragment.LinesEnd.opensLine {fragments front back : List Fragment} {closing entry : Text}
    (ends : LinesEnd (fragments ++ [.closing closing]))
    (split : fragments ++ [.closing closing] = front ++ .comment entry :: back)
    (line : Comment.isLine entry = true) : Text.opensLine (back.flatMap Fragment.text) = true := by
  rw [split] at ends
  cases back with
  | nil =>
      have hlast := congrArg List.getLast? split
      simp at hlast
  | cons next later =>
      have hfollows := (List.isChain_cons.mp (List.IsChain.right_of_append ends)).1 next rfl line
      rw [List.flatMap_cons]
      exact Text.opensLine_append hfollows _

/-- The fragments of a block that was read from a node and changed. The comments
`added` have been put in front of the closing text. -/
def Code.outline (node : Go.Node) (added : List Text) (original changed : Block Action) :
    List Fragment :=
  braceFragments (Comment.splitTrailing ((fillers node).headD [])) ++
    (changed.stmts.flatMap (Stmt.outline Action.print) ++ Block.ending added original.closing)

/-- No line comment of a changed block has anything behind it on its line, and no
two statements are on one line because others between them have gone. -/
structure Code.KeepsLines (node : Go.Node) (added : List Text) (original changed : Block Action) :
    Prop where
  text : (outline node added original changed).flatMap Fragment.text = printBlock changed
  single : ∀ entry, .comment entry ∈ outline node added original changed → IsSingle entry
  opens : ∀ front entry back,
    outline node added original changed = front ++ .comment entry :: back →
      Comment.isLine entry = true → Text.opensLine (back.flatMap Fragment.text) = true
  thinned : Stmt.Thinned false original.stmts changed.stmts

/-- The nodes of the bodies of the functions of a file. -/
def Code.bodyNodes (root : Go.Node) : List Go.Node :=
  (root.children.filter isFunction).filterMap fun node => node.children.getLast?

namespace Engine

/-- Stripping a block never comments out code. Where the texts between statements
and braces are blanks, semicolons and complete comments, and what is left behind
the comments on a line starts with a line break if there are comments in it, each
line comment of the stripped block is followed by a line break, and statements
behind which others have gone are followed by one as well. -/
theorem stripBlock_keepsLines (engine : Engine) (scope : Scope) {node : Go.Node}
    {block : Block Action} (built : Code.block node = some block)
    (filled : ∀ gap ∈ Code.fillers node, ∃ count, Filling count gap)
    (orderly : ∀ gap ∈ Code.fillers node, Comment.isOrderly gap = true) :
    ∃ added, Code.KeepsLines node added block (engine.stripBlock scope block).1 := by
  obtain ⟨hopening, hsafe⟩ := Code.lineSafe_block built filled orderly
  obtain ⟨⟨added, hclosing, hends, hstmts, hsingle⟩, hthinned⟩ :=
    engine.stripBlock_keeps scope block block.closing _ [] hsafe
  have hkept : (engine.stripBlock scope block).1.opening = block.opening :=
    (Span.opening_remove _).trans (Region.opening_remove block)
  refine ⟨added, ?_, ?_, ?_, hthinned⟩
  · rw [printBlock_eq, Block.print, hkept, hopening, hclosing, Code.outline, List.flatMap_append,
      Code.text_braceFragments, List.flatMap_append, List.flatMap_assoc]
    simp [Stmt.text_outline, Block.text_ending]
  · obtain ⟨_, hfilling⟩ := filled _ (Code.headD_mem_fillers node)
    intro entry member
    simp only [Code.outline, Code.braceFragments, Stmt.outline, Stmt.leading, Block.ending,
      List.mem_append, List.mem_cons, List.mem_flatMap, List.mem_map, reduceCtorEq, false_or,
      or_false, Fragment.comment.injEq, exists_eq_right, List.not_mem_nil] at member
    rcases member with member | ⟨stmt, hstmt, member⟩ | member
    · exact (hfilling.splitTrailing.2.1 entry member).1
    · exact (hstmts stmt hstmt).single entry (List.mem_append.mpr member)
    · exact hsingle entry member
  · intro front entry back hsplit hline
    rw [Code.outline, Block.ending, ← List.append_assoc, ← List.append_assoc] at hsplit
    rw [Block.ending, ← List.append_assoc, ← List.append_assoc] at hends
    exact hends.opensLine hsplit hline

/-- A line comment behind a statement, and the start of a region below it. -/
def noteGap : Text :=
  ' ' :: (('/' :: '/' :: " note".toList) ++ '\n' :: '\t' ::
    (('/' :: '/' :: "dd:startwrap".toList) ++ ['\n', '\t']))

/-- The end of a region behind a statement. -/
def endGap : Text :=
  ' ' :: (('/' :: '/' :: "dd:endwrap".toList) ++ ['\n', '\t'])

/-- A semicolon between two comments on the line of a statement, and the end of a
region behind them. -/
def splitGap : Text :=
  ' ' :: (('/' :: '*' :: " x ".toList ++ ['*', '/']) ++ ' ' :: ';' :: ' ' ::
    (('/' :: '*' :: " y\n\tevil() // ".toList ++ ['*', '/']) ++ endGap))

/-- A function with three statements, and a region around the second one. -/
def gapSource (gap : Text) : Text :=
  "func f() \x7b\n\ta()".toList ++ noteGap ++ "b()".toList ++ gap ++ "c()\n\x7d".toList

theorem filling_endGap : Filling 0 endGap :=
  .blank ' ' rfl (.line _ (by decide) (.blank '\n' rfl (.blank '\t' rfl .nil)))

/-- The texts between the statements of the function are as they should be if the
one behind the region is. -/
theorem filling_gaps {gap : Text} {count : Nat} (least : count ≤ 1) (filling : Filling count gap) :
    ∀ filler ∈ [['\n', '\t'], noteGap, gap, ['\n']], ∃ count ≤ 1, Filling count filler := by
  have hbreak : Filling 0 ['\n', '\t'] := .blank '\n' rfl (.blank '\t' rfl .nil)
  have hnote : Filling 0 noteGap :=
    .blank ' ' rfl (.line _ (by decide) (.blank '\n' rfl (.blank '\t' rfl
      (.line _ (by decide) hbreak))))
  simp only [List.forall_mem_cons]
  exact ⟨⟨0, by decide, hbreak⟩, ⟨0, by decide, hnote⟩, ⟨count, least, filling⟩,
    ⟨0, by decide, .blank '\n' rfl .nil⟩, List.forall_mem_nil _⟩

theorem stripBlock_keepsLines_endGap :
    ∃ root node block added, Go.parse? (gapSource endGap) = some root ∧
      node ∈ Code.bodyNodes root ∧ Code.block node = some block ∧
      Code.KeepsLines node added block
        ((ofConfig .standard).stripBlock ⟨Import.ofRoot root, []⟩ block).1 := by
  have shown : ((Go.parse? (gapSource endGap)).bind fun root =>
      (Code.bodyNodes root).head?.bind fun node => (Code.block node).map fun _ =>
        Code.fillers node) = some [['\n', '\t'], noteGap, endGap, ['\n']] := by decide +kernel
  obtain ⟨root, parsed, hroot⟩ := Option.bind_eq_some_iff.mp shown
  obtain ⟨node, hnode, hblock⟩ := Option.bind_eq_some_iff.mp hroot
  obtain ⟨block, built, hfillers⟩ := Option.map_eq_some_iff.mp hblock
  have filled : ∀ gap ∈ Code.fillers node, ∃ count, Filling count gap := by
    rw [hfillers]
    intro gap member
    obtain ⟨count, -, hfilling⟩ := filling_gaps (Nat.zero_le 1) filling_endGap gap member
    exact ⟨count, hfilling⟩
  have orderly : ∀ gap ∈ Code.fillers node, Comment.isOrderly gap = true := by
    rw [hfillers]
    decide
  obtain ⟨added, keeps⟩ := stripBlock_keepsLines (ofConfig .standard) ⟨Import.ofRoot root, []⟩
    built filled orderly
  exact ⟨root, node, block, added, parsed, List.mem_of_head? hnode, built, keeps⟩

theorem filling_splitGap : Filling 1 splitGap :=
  .blank ' ' rfl (.block _ (by decide) (.blank ' ' rfl (.semicolon (.blank ' ' rfl
    (.block _ (by decide) filling_endGap)))))

/-- A comment that stands behind a semicolon and another comment moves up behind a
line comment. What was text in it becomes code. -/
theorem stripBlock_swallows_splitGap :
    ∃ root node block, Go.parse? (gapSource splitGap) = some root ∧
      node ∈ Code.bodyNodes root ∧ Code.block node = some block ∧
      (∀ gap ∈ Code.fillers node, ∃ count ≤ 1, Filling count gap) ∧
      let stripped := ((ofConfig .standard).stripBlock ⟨Import.ofRoot root, []⟩ block).1
      printBlock stripped =
        "\x7b\n\ta() // note ; /* y\n\tevil() // */\n\tc()\n\x7d".toList ∧
      ∀ added, ¬ Code.KeepsLines node added block stripped := by
  have shown : ((Go.parse? (gapSource splitGap)).bind fun root =>
      (Code.bodyNodes root).head?.bind fun node => (Code.block node).map fun block =>
        let stripped := ((ofConfig .standard).stripBlock ⟨Import.ofRoot root, []⟩ block).1
        (Code.fillers node,
          Code.braceFragments (Comment.splitTrailing ((Code.fillers node).headD [])) ++
            stripped.stmts.flatMap (Stmt.outline Action.print),
          printBlock stripped)) =
      some ([['\n', '\t'], noteGap, splitGap, ['\n']],
        [.opening ['{'], .code ['\n', '\t'], .code "a()".toList, .comment " // note".toList,
          .comment " ; /* y\n\tevil() // */".toList, .code ['\n', '\t'], .code "c()".toList],
        "\x7b\n\ta() // note ; /* y\n\tevil() // */\n\tc()\n\x7d".toList) := by
    decide +kernel
  obtain ⟨root, parsed, hroot⟩ := Option.bind_eq_some_iff.mp shown
  obtain ⟨node, hnode, hblock⟩ := Option.bind_eq_some_iff.mp hroot
  obtain ⟨block, built, hresult⟩ := Option.map_eq_some_iff.mp hblock
  simp only [Prod.mk.injEq] at hresult
  obtain ⟨hfillers, houtline, hprinted⟩ := hresult
  refine ⟨root, node, block, parsed, List.mem_of_head? hnode, built, ?_, hprinted, ?_⟩
  · rw [hfillers]
    exact filling_gaps (Nat.le_refl 1) filling_splitGap
  · intro added keeps
    have hopens := keeps.opens
      [.opening ['{'], .code ['\n', '\t'], .code "a()".toList] " // note".toList
      (.comment " ; /* y\n\tevil() // */".toList :: .code ['\n', '\t'] :: .code "c()".toList ::
        Block.ending added block.closing)
      (by rw [Code.outline, ← List.append_assoc, houtline]; rfl) (by decide)
    simp [Fragment.text, Text.opensLine, Text.isBlank] at hopens

end Engine

end Deinstrument
