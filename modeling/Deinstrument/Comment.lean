import Deinstrument.Text

/-!
# Comments

A comment runs from two slashes to the end of the line, or from a slash and a
star to the next star and slash. This module measures comments and cuts the
text between statements into decorations: entries of one comment each,
together with the blanks in front of it.
-/

namespace Deinstrument.Comment

/-- The length of a line comment: it ends in front of the line feed. -/
def lineLength (text : Text) : Nat :=
  (text.takeWhile (· != '\n')).length

/-- The length of the comment at the front of a text, if there is one. A block
comment that is never closed reaches to the end of the text. -/
def length? (text : Text) : Option Nat :=
  match text with
  | '/' :: '/' :: _ => some (lineLength text)
  | '/' :: '*' :: rest =>
      match Text.find? ['*', '/'] rest with
      | some position => some (position + 4)
      | none => some text.length
  | _ => none

/-- The length of the comment at the front of a text, if it is complete. -/
def closedLength? (text : Text) : Option Nat :=
  match text with
  | '/' :: '/' :: _ => some (lineLength text)
  | '/' :: '*' :: rest => (Text.find? ['*', '/'] rest).map (· + 4)
  | _ => none

/-- The text of a decoration entry without the blanks and semicolons in front
of its comment. -/
def body (entry : Text) : Text :=
  entry.dropWhile fun character => Text.isBlank character || character == ';'

/-- Blanks that do not end a line. -/
def isInline (character : Char) : Bool :=
  character == ' ' || character == '\t' || character == '\r'

/-- The text behind a statement: an explicit semicolon with the blanks before
it, the comments on the statement's last line, and everything else. -/
structure Trailing where
  terminator : Text
  entries : List Text
  rest : Text
  deriving Repr, DecidableEq

/-- The text in front of a statement: its comments, and the blanks behind the
last of them. -/
structure Leading where
  entries : List Text
  space : Text
  deriving Repr, DecidableEq

/-- The comments that follow each other without a line break between them, at
most `fuel` of them, and the text behind them. -/
def inlineEntries : Nat → Text → List Text × Text
  | 0, text => ([], text)
  | fuel + 1, text =>
      let blanks := text.takeWhile isInline
      let behind := text.dropWhile isInline
      match length? behind with
      | none => ([], text)
      | some length =>
          let (entries, rest) := inlineEntries fuel (behind.drop length)
          ((blanks ++ behind.take length) :: entries, rest)

/-- The semicolon that may follow a statement on its line, with the blanks in
front of it, and the text behind it. -/
def takeTerminator (gap : Text) : Text × Text :=
  match gap.dropWhile isInline with
  | ';' :: rest => (gap.takeWhile isInline ++ [';'], rest)
  | _ => ([], gap)

/-- Cut the text behind a statement. -/
def splitTrailing (gap : Text) : Trailing :=
  let (terminator, behind) := takeTerminator gap
  let (entries, rest) := inlineEntries behind.length behind
  ⟨terminator, entries, rest⟩

/-- Cut a text at the end of each comment in it; `entry` is what stands before
the text since the last cut. -/
def leadingEntries : Nat → Text → Text → Leading
  | 0, entry, text => ⟨[], entry ++ text⟩
  | fuel + 1, entry, text =>
      match length? text with
      | some length =>
          let later := leadingEntries fuel [] (text.drop length)
          ⟨(entry ++ text.take length) :: later.entries, later.space⟩
      | none =>
          match text with
          | [] => ⟨[], entry⟩
          | first :: rest => leadingEntries fuel (entry ++ [first]) rest

/-- Cut the text in front of a statement. -/
def splitLeading (text : Text) : Leading :=
  leadingEntries (text.length + 1) [] text

end Deinstrument.Comment
