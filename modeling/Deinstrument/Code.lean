import Deinstrument.Go.Kind
import Deinstrument.Row
import Deinstrument.Statement

/-!
# Code

The part of a source file that is examined in detail: functions, the
statements of their bodies and the expressions in them. All text between the
parts is kept, so printing gives the source back.
-/

namespace Deinstrument

mutual

/-- An expression with all text between its parts. -/
inductive Expr
  | ident (name : Text)
  /-- A member of a value or a package. -/
  | selector (lead : Text) (operand : Expr) (dot : Text) (name : Text) (tail : Text)
  /-- A call; the row of arguments starts behind the callee. -/
  | call (lead : Text) (callee : Expr) (arguments : Row Expr)
  /-- A literal of a given type; the row of elements starts behind the type. -/
  | literal (lead : Text) (type : Expr) (elements : Row Expr)
  /-- A literal whose type is left out. -/
  | elements (row : Row Expr)
  /-- An element of a literal with its key. -/
  | keyed (lead : Text) (key : Expr) (colon : Text) (value : Expr) (tail : Text)
  /-- A function value; the head reaches up to the opening brace. -/
  | function (head : Text) (body : Block Action)
  | other (kind : Go.Kind) (row : Row Expr)

/-- What a statement does. -/
inductive Action
  /-- An expression evaluated for its effect. -/
  | expression (lead : Text) (value : Expr) (tail : Text)
  /-- An assignment; the row of values starts with the operator. -/
  | assignment (targets values : Row Expr)
  | results (row : Row Expr)
  /-- Any other statement, kept as it stands. -/
  | verbatim (text : Text)

end

/-- A declared function. Without a body the head is the whole declaration. -/
structure FunctionDecl where
  name : Text
  head : Text
  body : Option (Block Action)

/-- A stretch of a source file. -/
inductive Item
  | text (source : Text)
  | function (decl : FunctionDecl)

namespace Row

/-- The text between two rows that stand side by side. -/
def joint {α : Type} (first second : Row α) : Text :=
  first.gaps.getLast?.getD [] ++ second.lead

/-- All gaps of two rows that stand side by side. -/
def jointGaps {α : Type} (first second : Row α) : List Text :=
  first.gaps.dropLast ++ [first.joint second] ++ second.items.map (·.gap)

end Row

namespace Action

/-- The operator of an assignment. -/
def operator (targets values : Row Expr) : Text :=
  Text.trim (targets.joint values)

/-- The expressions directly in a statement, from left to right. -/
def roots : Action → List Expr
  | .expression _ value _ => [value]
  | .assignment targets values => targets.values ++ values.values
  | .results row => row.values
  | .verbatim _ => []

end Action

/-! ## Printing -/

mutual

def Expr.print : Expr → Text
  | .ident name => name
  | .selector lead operand dot name tail => lead ++ operand.print ++ dot ++ name ++ tail
  | .call lead callee ⟨gap, items⟩ => lead ++ callee.print ++ gap ++ printItems items
  | .literal lead type ⟨gap, items⟩ => lead ++ type.print ++ gap ++ printItems items
  | .elements ⟨gap, items⟩ => gap ++ printItems items
  | .keyed lead key colon value tail => lead ++ key.print ++ colon ++ value.print ++ tail
  | .function head body => head ++ printBlock body
  | .other _ ⟨gap, items⟩ => gap ++ printItems items

def printItems : List (Spaced Expr) → Text
  | [] => []
  | ⟨value, gap⟩ :: rest => value.print ++ gap ++ printItems rest

def Action.print : Action → Text
  | .expression lead value tail => lead ++ value.print ++ tail
  | .assignment ⟨lead, targets⟩ ⟨gap, values⟩ =>
      lead ++ printItems targets ++ gap ++ printItems values
  | .results ⟨lead, items⟩ => lead ++ printItems items
  | .verbatim text => text

def printBlock : Block Action → Text
  | ⟨opening, stmts, closing⟩ => opening ++ printStmts stmts ++ closing

def printStmts : List (Stmt Action) → Text
  | [] => []
  | ⟨before, space, action, terminator, after, _⟩ :: rest =>
      before.flatten ++ space ++ action.print ++ terminator ++ after.flatten ++ printStmts rest

end

def FunctionDecl.print (decl : FunctionDecl) : Text :=
  match decl.body with
  | some body => decl.head ++ printBlock body
  | none => decl.head

def Item.print : Item → Text
  | .text source => source
  | .function decl => decl.print

theorem printItems_eq (items : List (Spaced Expr)) :
    printItems items = Row.textOf Expr.print items := by
  induction items with
  | nil => rfl
  | cons item rest ih => simp [printItems, Row.textOf, ih]

theorem printStmts_eq (stmts : List (Stmt Action)) :
    printStmts stmts = stmts.flatMap (Stmt.print Action.print) := by
  induction stmts with
  | nil => rfl
  | cons stmt rest ih => simp [printStmts, Stmt.print, ih]

/-- Printing a block is printing its statements between its braces. -/
theorem printBlock_eq (block : Block Action) : printBlock block = block.print Action.print := by
  obtain ⟨opening, stmts, closing⟩ := block
  simp [printBlock, Block.print, printStmts_eq]

end Deinstrument
