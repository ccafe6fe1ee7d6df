import Deinstrument.Rule
import Deinstrument.Tally

/-!
# Applying unwrap rules

The rules are tried at every statement and every expression, outer ones first.
At each place the first rule that fits is applied, and the walk goes on into
the result; the rule is not tried there again. The walk goes as deep as the
statements do, since taking something off never makes them deeper.
-/

namespace Deinstrument

/-! ## Depth -/

mutual

/-- The number of nested places in an expression. -/
def Expr.depth : Expr → Nat
  | .ident _ => 1
  | .selector _ operand _ _ _ => operand.depth + 1
  | .call _ callee ⟨_, items⟩ => max callee.depth (depthItems items) + 1
  | .literal _ type ⟨_, items⟩ => max type.depth (depthItems items) + 1
  | .elements ⟨_, items⟩ => depthItems items + 1
  | .keyed _ key _ value _ => max key.depth value.depth + 1
  | .function _ body => depthBlock body + 1
  | .other _ ⟨_, items⟩ => depthItems items + 1

def depthItems : List (Spaced Expr) → Nat
  | [] => 0
  | ⟨value, _⟩ :: rest => max value.depth (depthItems rest)

/-- The number of nested places in an action. -/
def Action.depth : Action → Nat
  | .expression _ value _ => value.depth + 1
  | .assignment ⟨_, targets⟩ ⟨_, values⟩ => max (depthItems targets) (depthItems values) + 1
  | .results ⟨_, items⟩ => depthItems items + 1
  | .verbatim _ => 1

def depthBlock : Block Action → Nat
  | ⟨_, stmts, _⟩ => depthStmts stmts

def depthStmts : List (Stmt Action) → Nat
  | [] => 0
  | ⟨_, _, action, _, _, _⟩ :: rest => max action.depth (depthStmts rest)

end

namespace UnwrapRule

/-- The result of the first rule that changes a value, with that rule. -/
def firstChange {α : Type} (change : UnwrapRule → α → Option α) (rules : List UnwrapRule)
    (value : α) : α × List UnwrapRule :=
  match rules with
  | [] => (value, [])
  | rule :: rest =>
      match change rule value with
      | some changed => (changed, [rule])
      | none => firstChange change rest value

/-- Apply a change to every item and collect the rules that were used. -/
def mapItems (change : Expr → Expr × List UnwrapRule) :
    List (Spaced Expr) → List (Spaced Expr) × List UnwrapRule
  | [] => ([], [])
  | ⟨value, gap⟩ :: rest =>
      let (changed, used) := change value
      let (later, usedLater) := mapItems change rest
      (⟨changed, gap⟩ :: later, used ++ usedLater)

/-- Apply a change to every statement and collect the rules that were used. -/
def mapStmts (change : Action → Action × List UnwrapRule) :
    List (Stmt Action) → List (Stmt Action) × List UnwrapRule
  | [] => ([], [])
  | stmt :: rest =>
      let (changed, used) := change stmt.action
      let (later, usedLater) := mapStmts change rest
      ({ stmt with action := changed } :: later, used ++ usedLater)

/-- Apply a change to the expressions directly below an expression, and another
one to the actions directly below it. -/
def belowExpr (onExpr : Expr → Expr × List UnwrapRule)
    (onAction : Action → Action × List UnwrapRule) : Expr → Expr × List UnwrapRule
  | .ident name => (.ident name, [])
  | .selector lead operand dot name tail =>
      let (changed, used) := onExpr operand
      (.selector lead changed dot name tail, used)
  | .call lead callee ⟨gap, items⟩ =>
      let (newCallee, used) := onExpr callee
      let (newItems, usedLater) := mapItems onExpr items
      (.call lead newCallee ⟨gap, newItems⟩, used ++ usedLater)
  | .literal lead type ⟨gap, items⟩ =>
      let (newType, used) := onExpr type
      let (newItems, usedLater) := mapItems onExpr items
      (.literal lead newType ⟨gap, newItems⟩, used ++ usedLater)
  | .elements ⟨gap, items⟩ =>
      let (newItems, used) := mapItems onExpr items
      (.elements ⟨gap, newItems⟩, used)
  | .keyed lead key colon value tail =>
      let (newKey, used) := onExpr key
      let (newValue, usedLater) := onExpr value
      (.keyed lead newKey colon newValue tail, used ++ usedLater)
  | .function head ⟨opening, stmts, closing⟩ =>
      let (newStmts, used) := mapStmts onAction stmts
      (.function head ⟨opening, newStmts, closing⟩, used)
  | .other kind ⟨gap, items⟩ =>
      let (newItems, used) := mapItems onExpr items
      (.other kind ⟨gap, newItems⟩, used)

/-- Apply a change to the expressions directly below an action. -/
def belowAction (onExpr : Expr → Expr × List UnwrapRule) : Action → Action × List UnwrapRule
  | .expression lead value tail =>
      let (changed, used) := onExpr value
      (.expression lead changed tail, used)
  | .assignment ⟨lead, targets⟩ ⟨gap, values⟩ =>
      let (newTargets, used) := mapItems onExpr targets
      let (newValues, usedLater) := mapItems onExpr values
      (.assignment ⟨lead, newTargets⟩ ⟨gap, newValues⟩, used ++ usedLater)
  | .results ⟨lead, items⟩ =>
      let (newItems, used) := mapItems onExpr items
      (.results ⟨lead, newItems⟩, used)
  | .verbatim text => (.verbatim text, [])

mutual

/-- Apply rules to an expression and everything below it, down to a depth. -/
def applyExpr (scope : Scope) (rules : List UnwrapRule) : Nat → Expr → Expr × List UnwrapRule
  | 0, expr => (expr, [])
  | depth + 1, expr =>
      let (changed, used) := firstChange (·.onExpr scope) rules expr
      let (walked, usedBelow) :=
        belowExpr (applyExpr scope rules depth) (applyAction scope rules depth) changed
      (walked, used ++ usedBelow)

/-- Apply rules to an action and everything below it, down to a depth. -/
def applyAction (scope : Scope) (rules : List UnwrapRule) :
    Nat → Action → Action × List UnwrapRule
  | 0, action => (action, [])
  | depth + 1, action =>
      let (changed, used) := firstChange (·.onAction scope) rules action
      let (walked, usedBelow) := belowAction (applyExpr scope rules depth) changed
      (walked, used ++ usedBelow)

end

/-- Apply rules to statements and everything below them; the rules are listed
once for each time they were applied. -/
def apply (scope : Scope) (rules : List UnwrapRule) (stmts : List (Stmt Action)) :
    List (Stmt Action) × List UnwrapRule :=
  mapStmts (applyAction scope rules (depthStmts stmts)) stmts

/-- How often each rule was applied. -/
def tally (used : List UnwrapRule) : Tally :=
  Tally.ofNames (used.map fun rule => rule.name.toList)

end UnwrapRule

end Deinstrument
