import Deinstrument.Comment

/-!
# Statements and blocks

A statement is an action together with the comments attached to it, and a
block is a list of statements between braces. Which actions there are is left
open: attaching, moving and removing comments never looks at them.
-/

namespace Deinstrument

/-- A statement with the text attached to it. Each entry of `before` and
`after` is one comment with the blanks in front of it. -/
structure Stmt (Action : Type) where
  /-- The comments on the lines above the statement. -/
  before : List Text
  /-- The blanks between the last comment above and the statement itself. -/
  space : Text
  action : Action
  /-- An explicit semicolon, with the blanks in front of it. -/
  terminator : Text
  /-- The comments behind the statement. -/
  after : List Text
  /-- The line of the statement in its source, counted from one. -/
  line : Nat
  deriving Repr, DecidableEq

/-- Statements between braces. The opening text holds the comments on the line
of the opening brace, the closing text everything behind the last statement. -/
structure Block (Action : Type) where
  opening : Text
  stmts : List (Stmt Action)
  closing : Text
  deriving Repr, DecidableEq

namespace Stmt

variable {Action : Type}

/-- The number of blank lines in front of a comment. -/
def blankLines (entry : Text) : Nat :=
  Text.breaks (entry.takeWhile Text.isBlank) - 1

/-- Whether a text starts on a new line. -/
def startsLine (text : Text) : Bool :=
  Text.startsWith text ['\n'] || Text.startsWith text ['\r', '\n']

/-- Put blank lines in front of a text that starts on a new line. -/
def carry (blank : Nat) (text : Text) : Text :=
  if startsLine text then List.replicate blank '\n' ++ text else text

/-- Drop the entries whose comment satisfies a condition and count them. The
blank lines in front of a dropped entry go to whatever follows it: `blank` of
them are on their way to the first entry, or to the space behind the last. -/
def dropEntries (drops : Text → Bool) (blank : Nat) : List Text → Text → List Text × Text × Nat
  | [], space => ([], carry blank space, 0)
  | first :: rest, space =>
      let entry := carry blank first
      if drops (Comment.body entry) then
        let (kept, newSpace, count) := dropEntries drops (blankLines entry) rest space
        (kept, newSpace, count + 1)
      else
        let (kept, newSpace, count) := dropEntries drops 0 rest space
        (entry :: kept, newSpace, count)

def dropBefore (drops : Text → Bool) (stmt : Stmt Action) : Stmt Action × Nat :=
  let (kept, space, count) := dropEntries drops 0 stmt.before stmt.space
  ({ stmt with before := kept, space := space }, count)

def dropAfter (drops : Text → Bool) (stmt : Stmt Action) : Stmt Action × Nat :=
  let kept := stmt.after.filter fun entry => !drops (Comment.body entry)
  ({ stmt with after := kept }, stmt.after.length - kept.length)

/-- Drop the comments of a statement that satisfy a condition. -/
def dropBoth (drops : Text → Bool) (stmt : Stmt Action) : Stmt Action × Nat :=
  let (cleared, above) := stmt.dropBefore drops
  let (done, behind) := cleared.dropAfter drops
  (done, above + behind)

def isBare (stmt : Stmt Action) : Bool :=
  stmt.before.isEmpty && stmt.after.isEmpty

/-- The text of a statement, given the text of its action. -/
def print (action : Action → Text) (stmt : Stmt Action) : Text :=
  stmt.before.flatten ++ stmt.space ++ action stmt.action ++ stmt.terminator ++
    stmt.after.flatten

end Stmt

namespace Block

variable {Action : Type}

/-- The text of a block, given the text of its actions. -/
def print (action : Action → Text) (block : Block Action) : Text :=
  block.opening ++ block.stmts.flatMap (Stmt.print action) ++ block.closing

end Block

end Deinstrument
