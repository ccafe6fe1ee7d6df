import Deinstrument.Proofs.ImportSpecs

/-!
# Import declarations

An import declaration holds one specification or a group of them between
parentheses. Its tree tells where the specifications and the blanks and
separators around them are, and its text is read the same whatever stands
behind it.
-/

namespace Deinstrument.Go

open Form

/-! ## Groups -/

/-- The text between two specifications or two declarations: a terminator and
the blanks behind it. The flag says whether the terminator is a semicolon. -/
inductive Separator (semicolon : Bool) : Text → Prop
  | mk {front blanks : Text} (terminator : Terminator semicolon front)
      (passed : Blanks true blanks) : Separator semicolon (front ++ blanks)

structure IsSpec (node : Node) : Prop where
  kind : node.kind = .importSpec
  text : SpecText node.text

/-- The specifications of a group with the texts behind them, the last of which
ends with the parenthesis that closes the group. -/
inductive SpecLines : List (Spaced Node) → Prop
  | last {spec : Node} {gap : Text} (isSpec : IsSpec spec)
      (closes : Blanks true gap ∨ ∃ semicolon, Separator semicolon gap) :
      SpecLines [⟨spec, gap ++ [')']⟩]
  | cons {spec : Node} {gap : Text} {rest : List (Spaced Node)} {semicolon : Bool}
      (isSpec : IsSpec spec) (separates : Separator semicolon gap) (later : SpecLines rest) :
      SpecLines (⟨spec, gap⟩ :: rest)

/-- A group of specifications, from its opening to its closing parenthesis. -/
inductive IsGroup : Node → Prop
  | empty (line : Nat) {blanks : Text} (passed : Blanks true blanks) :
      IsGroup (.mk .importSpecList line ⟨'(' :: blanks ++ [')'], []⟩)
  | lines (line : Nat) {blanks : Text} (passed : Blanks true blanks) {items : List (Spaced Node)}
      (lines : SpecLines items) : IsGroup (.mk .importSpecList line ⟨'(' :: blanks, items⟩)

/-- What follows the first specification of a group, up to its end. -/
def linesEnd : Form :=
  .seq (.many (.seq .terminator (.phrase .importSpec))) (.alt .terminator .empty)

/-- What stands between the parentheses of a group and the second of them. -/
def groupEnd : Form :=
  .seq (.within .body (.alt (.seq (.phrase .importSpec) linesEnd) .empty)) (sym ")")

def groupForm : Form :=
  node .importSpecList (.seq (sym "(") groupEnd)

/-- The characters that end a group or open one, or separate its specifications. -/
def isBracket (character : Char) : Bool :=
  character == '(' || character == ')' || character == ';'

/-- No specification starts with a parenthesis or a semicolon. -/
theorem after_importSpec_none {blanks : Text} (passed : Blanks true blanks) {next : Char}
    (bracket : isBracket next = true) (more : Text) :
    after .file (.phrase .importSpec) (blanks ++ next :: more) = none := by
  simp only [isBracket, Bool.or_eq_true, beq_iff_eq] at bracket
  have hmark : isMark next = true := by
    rcases bracket with (rfl | rfl) | rfl <;> decide
  have hsolid : afterBlanks (blanks ++ next :: more) = next :: more := by
    rw [passed.afterBlanks_append, afterBlanks_mark hmark]
  have hname : after .file importName (next :: more) = none := by
    rcases bracket with (rfl | rfl) | rfl <;>
      exact after_importName_none (by decide) (by decide) (by decide) more
  have hstring : after .file string (next :: more) = none := by
    cases hstring : after .file string (next :: more) with
    | none => rfl
    | some rest =>
        obtain ⟨literal, hliteral, isString⟩ := exists_string hstring
        rw [afterBlanks_mark hmark] at hliteral
        obtain ⟨quote, later, rfl, -⟩ := isString.exists_cons
        cases hliteral
        cases isString.opens <;> rename_i hopens <;> cases hopens <;> simp at bracket
  rw [after_phrase]
  change after .file importSpec _ = none
  rw [importSpec_eq, after_node rfl, hsolid, after_seq rfl, after_alt rfl,
    hname, Option.none_or, after_atom rfl]
  simp only [Form.length?, Option.map_some, List.drop_zero, Option.bind_some]
  rw [after_phrase]
  exact hstring

/-- Blanks in front of a parenthesis may start with a terminator. -/
theorem Blanks.after_terminator {blanks : Text} (passed : Blanks true blanks) (more : Text) :
    after .file .terminator (blanks ++ ')' :: more) = none ∨
      ∃ rest, Blanks true rest ∧
        after .file .terminator (blanks ++ ')' :: more) = some (rest ++ ')' :: more) := by
  rcases passed.inline_or_break with inline | ⟨ending, rest, rfl, terminator, later⟩
  · left
    rw [Go.after_terminator, inline.drop_inlineLength,
      drop_inlineLength_of_ne (.inl (by decide)) (by decide)]
    rfl
  · refine .inr ⟨rest, later, ?_⟩
    rw [List.append_assoc]
    exact terminator.after_append .file _

theorem after_sym_close {blanks : Text} (passed : Blanks true blanks) (more : Text) :
    after .file (sym ")") (blanks ++ ')' :: more) = some more := by
  rw [after_sym, passed.afterBlanks_append, afterBlanks_solid (by decide)]
  simp

/-- The texts behind the last specification come to the end of the group. -/
theorem after_linesEnd_close {gap : Text}
    (closes : Blanks true gap ∨ ∃ semicolon, Separator semicolon gap) (more : Text) :
    (after .file linesEnd (gap ++ ')' :: more)).bind (after .file (sym ")")) = some more := by
  have hterminator : (after .file .terminator (gap ++ ')' :: more) = none ∧ Blanks true gap) ∨
      ∃ rest, Blanks true rest ∧
        after .file .terminator (gap ++ ')' :: more) = some (rest ++ ')' :: more) := by
    rcases closes with hblanks | ⟨semicolon, ⟨terminator, passed⟩⟩
    · exact (hblanks.after_terminator more).imp (fun hnone => ⟨hnone, hblanks⟩) id
    · refine .inr ⟨_, passed, ?_⟩
      rw [List.append_assoc]
      exact terminator.after_append .file _
  rw [linesEnd, after_seq rfl, after_many rfl, after_seq rfl]
  rcases hterminator with ⟨hnone, hblanks⟩ | ⟨rest, hrest, hsome⟩
  · rw [hnone, Option.bind_none, Option.elim_none, Option.bind_some, after_alt rfl, hnone,
      Option.none_or, after_atom rfl]
    exact after_sym_close hblanks more
  · rw [hsome, Option.bind_some, after_importSpec_none hrest rfl, Option.elim_none, Option.bind_some,
      after_alt rfl, hsome, Option.some_or, Option.bind_some]
    exact after_sym_close hrest more

/-- A specification and the separator in front of it are passed over. -/
theorem after_linesEnd_cons {semicolon : Bool} {gap spec : Text}
    (separates : Separator semicolon gap) (isSpec : SpecText spec) (more : Text) :
    after .file linesEnd (gap ++ spec ++ more) = after .file linesEnd more := by
  cases separates with
  | @mk front blanks terminator passed =>
      have hassoc : front ++ blanks ++ spec ++ more = front ++ (blanks ++ spec ++ more) := by simp
      have hitem : after .file (.seq .terminator (.phrase .importSpec))
          (front ++ blanks ++ spec ++ more) = some more := by
        rw [after_seq rfl, hassoc, terminator.after_append, Option.bind_some, after_phrase]
        exact isSpec.after_append passed more
      rw [linesEnd, after_seq rfl, after_seq rfl, after_many rfl, hitem]
      rfl

namespace SpecLines

theorem isSpec_head {item : Spaced Node} {rest : List (Spaced Node)}
    (lines : SpecLines (item :: rest)) : IsSpec item.value := by
  cases lines with
  | last isSpec closes => exact isSpec
  | cons isSpec separates later => exact isSpec

/-- What follows a specification is read to the end of the group. -/
theorem after_append {spec : Node} {gap : Text} {rest : List (Spaced Node)}
    (lines : SpecLines (⟨spec, gap⟩ :: rest)) (more : Text) :
    (after .file linesEnd (gap ++ Node.textItems rest ++ more)).bind (after .file (sym ")")) =
      some more := by
  generalize hitems : (⟨spec, gap⟩ : Spaced Node) :: rest = items at lines
  induction lines generalizing spec gap rest with
  | last isSpec closes =>
      cases hitems
      rw [Node.textItems, List.append_nil, List.append_assoc]
      exact after_linesEnd_close closes more
  | @cons spec gap rest semicolon isSpec separates later ih =>
      cases hitems
      cases rest with
      | nil => cases later
      | cons item rest =>
          obtain ⟨next, behind⟩ := item
          have hnext := later.isSpec_head
          have hassoc : gap ++ Node.textItems (⟨next, behind⟩ :: rest) ++ more =
              gap ++ next.text ++ (behind ++ Node.textItems rest ++ more) := by
            simp [Node.textItems]
          rw [hassoc, after_linesEnd_cons separates hnext.text]
          exact ih rfl

end SpecLines

theorem IsGroup.exists_cons {list : Node} (isGroup : IsGroup list) :
    ∃ rest, list.text = '(' :: rest := by
  cases isGroup with
  | empty line passed => exact ⟨_, rfl⟩
  | lines line passed lines => exact ⟨_, rfl⟩

theorem SpecLines.getLast? {items : List (Spaced Node)} (lines : SpecLines items) :
    (Node.textItems items).getLast? = some ')' := by
  induction lines with
  | last isSpec closes => simp [Node.textItems]
  | cons isSpec separates later ih =>
      rw [Node.textItems]
      exact getLast?_append_of_some ih

theorem IsGroup.getLast? {list : Node} (isGroup : IsGroup list) :
    list.text.getLast? = some ')' := by
  cases isGroup with
  | empty line passed =>
      rw [Node.text, Node.textItems, List.append_nil]
      exact getLast?_append_of_some rfl
  | lines line passed lines => exact getLast?_append_of_some lines.getLast?

theorem after_groupForm {blanks : Text} (passed : Blanks true blanks) (rest : Text) :
    after .file groupForm (blanks ++ '(' :: rest) = after .file groupEnd rest := by
  rw [groupForm, after_node rfl, after_seq rfl, passed.afterBlanks_append,
    afterBlanks_solid (by decide), after_sym, afterBlanks_solid (by decide)]
  simp

/-- A group is read as such whatever stands behind it. -/
theorem IsGroup.after_append {list : Node} (isGroup : IsGroup list) {blanks : Text}
    (passed : Blanks true blanks) (more : Text) :
    after .file groupForm (blanks ++ list.text ++ more) = some more := by
  cases isGroup with
  | @empty line inner hinner =>
      have hassoc : blanks ++ (Node.mk .importSpecList line ⟨'(' :: inner ++ [')'], []⟩).text ++
          more = blanks ++ '(' :: (inner ++ ')' :: more) := by
        simp [Node.text, Node.textItems]
      rw [hassoc, after_groupForm passed, groupEnd, after_seq rfl, after_within rfl]
      change (after .file _ _).bind _ = _
      rw [after_alt rfl, after_seq rfl, after_importSpec_none hinner rfl,
        Option.bind_none, Option.none_or, after_atom rfl]
      exact after_sym_close hinner more
  | @lines line inner hinner items lines =>
      cases items with
      | nil => cases lines
      | cons item rest =>
          obtain ⟨spec, gap⟩ := item
          have hspec := lines.isSpec_head
          have hassoc : blanks ++ (Node.mk .importSpecList line
              ⟨'(' :: inner, ⟨spec, gap⟩ :: rest⟩).text ++ more =
              blanks ++ '(' :: (inner ++ spec.text ++ (gap ++ Node.textItems rest ++ more)) := by
            simp [Node.text, Node.textItems]
          have hfirst : after .file (.phrase .importSpec)
              (inner ++ spec.text ++ (gap ++ Node.textItems rest ++ more)) =
              some (gap ++ Node.textItems rest ++ more) := by
            rw [after_phrase]
            exact hspec.text.after_append hinner _
          have hbehind := lines.after_append more
          obtain ⟨close, hclose, hend⟩ := Option.bind_eq_some_iff.mp hbehind
          rw [hassoc, after_groupForm passed, groupEnd, after_seq rfl, after_within rfl]
          change (after .file _ _).bind _ = _
          rw [after_alt rfl, after_seq rfl, hfirst, Option.bind_some, hclose,
            Option.some_or, Option.bind_some, hend]

/-! ## Declarations -/

/-- A declaration of one import or of a group of them. -/
inductive IsDeclaration : Node → Prop
  | single (line : Nat) {blanks : Text} {spec : Node} (passed : Blanks true blanks)
      (ends : EndsWord (blanks ++ spec.text)) (isSpec : IsSpec spec) :
      IsDeclaration (.mk .importDeclaration line ⟨"import".toList ++ blanks, [⟨spec, []⟩]⟩)
  | group (line : Nat) {blanks : Text} {list : Node} (passed : Blanks true blanks)
      (isGroup : IsGroup list) :
      IsDeclaration (.mk .importDeclaration line ⟨"import".toList ++ blanks, [⟨list, []⟩]⟩)

def declarationForm : Form :=
  node .importDeclaration (.seq (key "import") (.alt groupForm (.phrase .importSpec)))

def packageForm : Form :=
  node .packageClause (.seq (key "package") (name .packageIdentifier []))

/-- Functions and methods. -/
def functionForm : Form :=
  .alt (node .functionDeclaration (key "func" >> name .identifier [] >>
      opt (.phrase .typeParameterList) >> .phrase .parameterList >> functionEnd))
    (node .methodDeclaration (key "func" >> .phrase .parameterList >> name .fieldIdentifier [] >>
      .phrase .parameterList >> functionEnd))

theorem topLevel_eq : topLevel = .alt packageForm (.alt declarationForm functionForm) := rfl

theorem Blanks.endsWord {blanks text : Text} (passed : Blanks true blanks)
    (ends : EndsWord text) : EndsWord (blanks ++ text) := by
  cases passed with
  | nil => exact ends
  | space character space inline later =>
      rintro first ⟨⟩
      simp only [isSpace, Bool.or_eq_true, beq_iff_eq] at space
      rcases space with ((((rfl | rfl) | rfl) | rfl) | rfl) | rfl <;> decide
  | line words short several later =>
      rintro first ⟨⟩
      decide
  | block words closed later =>
      rintro first ⟨⟩
      decide

theorem isWord_import : IsWord "import".toList :=
  ⟨⟨'i', "mport".toList, rfl, by decide⟩, List.all_eq_true.mp (by decide)⟩

theorem isWord_package : IsWord "package".toList :=
  ⟨⟨'p', "ackage".toList, rfl, by decide⟩, List.all_eq_true.mp (by decide)⟩

theorem IsWord.afterBlanks_append {word : Text} (isWord : IsWord word) {blanks : Text}
    (passed : Blanks true blanks) (text : Text) :
    afterBlanks (blanks ++ word ++ text) = word ++ text := by
  obtain ⟨first, rest, rfl, hfirst⟩ := isWord.exists_start
  rw [List.append_assoc, passed.afterBlanks_append]
  exact afterBlanks_mark (isMark_of_isIdentifierStart hfirst) _

/-- A keyword is read where it is the whole next word. -/
theorem after_key_word {word : Text} (isWord : IsWord word) {text : Text} (ends : EndsWord text)
    (wanted : String) :
    after .file (key wanted) (word ++ text) = if word = wanted.toList then some text else none := by
  have hsolid := isWord.afterBlanks_append .nil text
  rw [List.nil_append] at hsolid
  rw [after_key, hsolid]
  simp only [Lexeme.length?, isWord.measure ends, List.take_left]
  split
  · rw [Option.map_some, List.drop_left]
  · rfl

theorem after_topLevel_import {blanks behind more : Text} (passed : Blanks true blanks)
    (ends : EndsWord behind)
    (reads : after .file (.alt groupForm (.phrase .importSpec)) behind = some more) :
    after .file topLevel (blanks ++ "import".toList ++ behind) = some more := by
  have hsolid := isWord_import.afterBlanks_append passed behind
  have hpackage : after .file (key "package") ("import".toList ++ behind) = none := by
    rw [after_key_word isWord_import ends]
    rfl
  have himport : after .file (key "import") ("import".toList ++ behind) = some behind := by
    rw [after_key_word isWord_import ends]
    rfl
  rw [topLevel_eq, after_alt rfl, packageForm, after_node rfl, hsolid, after_seq rfl, hpackage,
    Option.bind_none, Option.none_or, after_alt rfl, declarationForm, after_node rfl, hsolid,
    after_seq rfl, himport, Option.bind_some, reads, Option.some_or]

/-- A declaration is read as such whatever stands behind it. -/
theorem IsDeclaration.after_append {declaration : Node} (isDeclaration : IsDeclaration declaration)
    {blanks : Text} (passed : Blanks true blanks) (more : Text) :
    after .file topLevel (blanks ++ declaration.text ++ more) = some more := by
  cases isDeclaration with
  | @single line inner spec hinner ends isSpec =>
      have hassoc : blanks ++ (Node.mk .importDeclaration line
          ⟨"import".toList ++ inner, [⟨spec, []⟩]⟩).text ++ more =
          blanks ++ "import".toList ++ (inner ++ spec.text ++ more) := by
        simp [Node.text_single]
      obtain ⟨first, rest, hspec, hmark, hopen⟩ := isSpec.text.exists_cons
      have hgroup : after .file groupForm (inner ++ spec.text ++ more) = none := by
        rw [groupForm, after_node rfl, isSpec.text.afterBlanks_append hinner, after_seq rfl,
          after_sym, hspec, List.cons_append, afterBlanks_mark hmark]
        simp [List.isPrefixOf, hopen.symm]
      rw [hassoc]
      refine after_topLevel_import passed ?_ ?_
      · intro next hnext
        refine ends next ?_
        rw [hspec] at hnext ⊢
        cases inner <;> simpa using hnext
      · rw [after_alt rfl, hgroup, Option.none_or, after_phrase]
        exact isSpec.text.after_append hinner more
  | @group line inner list hinner isGroup =>
      have hassoc : blanks ++ (Node.mk .importDeclaration line
          ⟨"import".toList ++ inner, [⟨list, []⟩]⟩).text ++ more =
          blanks ++ "import".toList ++ (inner ++ list.text ++ more) := by
        simp [Node.text_single]
      rw [hassoc]
      refine after_topLevel_import passed ?_ ?_
      · rw [List.append_assoc]
        refine hinner.endsWord ?_
        obtain ⟨rest, hrest⟩ := isGroup.exists_cons
        rw [hrest]
        rintro first ⟨⟩
        decide
      · rw [after_alt rfl, isGroup.after_append hinner, Option.some_or]

end Deinstrument.Go
