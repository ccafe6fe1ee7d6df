import Deinstrument.Ignore.Glob

/-!
# Ignore files

An ignore file holds one pattern per line. Of the patterns that match a file or
a directory the last one decides whether it is ignored.
-/

namespace Deinstrument.Ignore

/-- A line of an ignore file. -/
structure Pattern where
  /-- Whether what matches is not ignored. -/
  keeps : Bool
  onlyDirectories : Bool
  glob : Glob
  deriving Repr

/-- A line without the blanks behind it; an escaped space is no blank. -/
def trimLine (line : Text) : Text :=
  if line.reverse.take 2 = [' ', '\\'] then line else Text.trimEnd line

/-- A text without a slash behind it, and whether there was one. A backslash in
front of that slash goes as well. -/
def dropSlash (text : Text) : Text × Bool :=
  match text.reverse with
  | '/' :: '\\' :: rest => (rest.reverse, true)
  | '/' :: rest => (rest.reverse, true)
  | _ => (text, false)

/-- The text of a glob: without a slash a pattern matches at every depth, and
two stars behind a slash match what is inside a directory. -/
def globText (anchored : Bool) (text : Text) : Text :=
  let anywhere := !anchored && !text.contains '/' && text != ['*', '*']
  let deep := if anywhere then '*' :: '*' :: '/' :: text else text
  if "**/".toList.isPrefixOf deep.reverse then deep ++ ['/', '*'] else deep

/-- The pattern behind the marks in front of a line. -/
def patternOf? (keeps anchored : Bool) (text : Text) : Option Pattern :=
  let (plain, onlyDirectories) := dropSlash text
  (glob? (globText anchored plain)).map fun glob => ⟨keeps, onlyDirectories, glob⟩

/-- A pattern whose marks in front have been read except for a slash. -/
def anchoredOf? (keeps : Bool) : Text → Option Pattern
  | '/' :: rest => patternOf? keeps true rest
  | text => patternOf? keeps false text

/-- The pattern of a line. Empty lines, comments and lines that are no pattern
have none. -/
def ofLine? (line : Text) : Option Pattern :=
  if line.head? = some '#' then none
  else
    match trimLine line with
    | [] => none
    | '\\' :: '!' :: rest => patternOf? false false ('!' :: rest)
    | '\\' :: '#' :: rest => patternOf? false false ('#' :: rest)
    | '!' :: rest => anchoredOf? true rest
    | text => anchoredOf? false text

/-- The patterns of an ignore file. -/
def ofText (text : Text) : List Pattern :=
  let plain := match text with
    | '\uFEFF' :: rest => rest
    | other => other
  (Text.lines plain).filterMap ofLine?

/-- Whether patterns ignore an entry at a location relative to them, or keep
it; nothing if none of them matches. -/
def verdict? (patterns : List Pattern) (isDirectory : Bool) (location : Text) : Option Bool :=
  (patterns.reverse.find? fun pattern =>
    (isDirectory || !pattern.onlyDirectories) && pattern.glob.accepts location).map
      fun pattern => !pattern.keeps

end Deinstrument.Ignore
