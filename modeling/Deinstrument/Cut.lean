import Deinstrument.Marker

/-!
# Cutting statements out of a block

When neighbouring statements are cut out of a block, the comments that do not
belong to them move to whatever follows: to the next statement, or into the
closing text if none is left.
-/

namespace Deinstrument

/-- A division of the statements of a block around those that are cut out,
with the comments taken off the first of these. -/
structure Cut (Action : Type) where
  front : List (Stmt Action)
  removed : List (Stmt Action)
  carried : List Text
  back : List (Stmt Action)

namespace Cut

variable {Action : Type}

/-- Whether a comment stands on a line of its own. -/
def isOwnLine (entry : Text) : Bool :=
  (entry.take (entry.length - (Comment.body entry).length)).contains '\n'

/-- Whether a comment behind the last statement of a cut stays in the block. -/
def stays (entry : Text) : Bool :=
  isOwnLine entry && (Marker.classify entry).isNone

/-- The comments that stay in the block. -/
def moved (cut : Cut Action) : List Text :=
  cut.carried ++
    match cut.removed.getLast? with
    | some last => last.after.filter stays
    | none => []

/-- What is left of a block when the statements are cut out. -/
def apply (block : Block Action) (cut : Cut Action) : Block Action :=
  match cut.back with
  | next :: later => { block with stmts := cut.front ++ next.attach cut.moved :: later }
  | [] => { block with stmts := cut.front, closing := cut.moved.flatten ++ block.closing }

/-- A cut with one more statement in front. -/
def addFront (stmt : Stmt Action) (cut : Cut Action) : Cut Action :=
  { cut with front := stmt :: cut.front }

end Cut

end Deinstrument
