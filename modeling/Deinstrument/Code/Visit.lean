import Deinstrument.Code

/-!
# Visiting code

The blocks, statements and expressions of a block in the order in which a
traversal meets them: each one before its parts, parts from left to right, the
bodies of function values included.
-/

namespace Deinstrument

/-- A part of the code that a traversal meets. -/
inductive Visit
  | block (block : Block Action)
  | stmt (stmt : Stmt Action)
  | expr (expr : Expr)

mutual

def Expr.visits : Expr → List Visit
  | .ident name => [.expr (.ident name)]
  | .selector lead operand dot name tail =>
      .expr (.selector lead operand dot name tail) :: operand.visits
  | .call lead callee ⟨gap, items⟩ =>
      .expr (.call lead callee ⟨gap, items⟩) :: (callee.visits ++ visitsItems items)
  | .literal lead type ⟨gap, items⟩ =>
      .expr (.literal lead type ⟨gap, items⟩) :: (type.visits ++ visitsItems items)
  | .elements ⟨gap, items⟩ => .expr (.elements ⟨gap, items⟩) :: visitsItems items
  | .keyed lead key colon value tail =>
      .expr (.keyed lead key colon value tail) :: (key.visits ++ value.visits)
  | .function head body => .expr (.function head body) :: visitsBlock body
  | .other kind ⟨gap, items⟩ => .expr (.other kind ⟨gap, items⟩) :: visitsItems items

def visitsItems : List (Spaced Expr) → List Visit
  | [] => []
  | ⟨value, _⟩ :: rest => value.visits ++ visitsItems rest

def Action.visits : Action → List Visit
  | .expression _ value _ => value.visits
  | .assignment ⟨_, targets⟩ ⟨_, values⟩ => visitsItems targets ++ visitsItems values
  | .results ⟨_, items⟩ => visitsItems items
  | .verbatim _ => []

def visitsBlock : Block Action → List Visit
  | ⟨opening, stmts, closing⟩ => .block ⟨opening, stmts, closing⟩ :: visitsStmts stmts

/-- The parts of statements in order, each statement before its own parts. -/
def visitsStmts : List (Stmt Action) → List Visit
  | [] => []
  | ⟨before, space, action, terminator, after, line⟩ :: rest =>
      .stmt ⟨before, space, action, terminator, after, line⟩ ::
        (action.visits ++ visitsStmts rest)

end

namespace Visit

/-- The block that was met, if it was one. -/
def block? : Visit → Option (Block Action)
  | .block met => some met
  | _ => none

/-- The expression that was met, if it was one. -/
def expr? : Visit → Option Expr
  | .expr met => some met
  | _ => none

end Visit

/-- The bodies of the functions among items, in order. -/
def Code.bodies (items : List Item) : List (Block Action) :=
  items.filterMap fun
    | .function decl => decl.body
    | .text _ => none

end Deinstrument
